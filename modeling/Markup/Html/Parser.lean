import Markup.Html.Builder

/-!
# Lenient parsing

Any text but a blank one is read as a document, unless elements nest too deeply or the options ask
for written elements only and there is none.
-/

namespace Markup.Html

/-- Parse a text as an HTML document. -/
def parse (options : ParseOptions) (text : String) : Except ParseFailure Document := do
  let c := (Cursor.ofText text).skipBlanks
  if c.rest.isEmpty then .error ⟨.emptyDocument, some c.position, []⟩
  else
    let lexemes :=
      if c.startsIgnoringCase "<!doctype" then c.doctype.1 :: c.doctype.2.lexemes else c.lexemes
    let built ← lexemes.foldlM (Builder.place options) Builder.empty
    built.finish options (c.position.after c.rest)

end Markup.Html
