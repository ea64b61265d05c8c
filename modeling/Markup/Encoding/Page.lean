/-!
# Code pages

The characters of the bytes from 0x80 to 0xFF in the encodings that give every byte a character. A
page is written as runs of consecutive code points.
-/

namespace Markup.Encoding

/-- The upper half of a code page, as first code points and lengths of runs. -/
abbrev Page := List (Nat × Nat)

/-- The code point of the entry with a number. -/
def Page.get? : Page → Nat → Option Nat
  | [], _ => none
  | (first, length) :: rest, entry =>
    if entry < length then some (first + entry) else Page.get? rest (entry - length)

/-- The upper half of ISO-8859-2. -/
def latin2Page : Page :=
  [(0x80, 33), (0x104, 1), (0x2D8, 1), (0x141, 1), (0xA4, 1), (0x13D, 1), (0x15A, 1), (0xA7, 2),
    (0x160, 1), (0x15E, 1), (0x164, 1), (0x179, 1), (0xAD, 1), (0x17D, 1), (0x17B, 1), (0xB0, 1),
    (0x105, 1), (0x2DB, 1), (0x142, 1), (0xB4, 1), (0x13E, 1), (0x15B, 1), (0x2C7, 1), (0xB8, 1),
    (0x161, 1), (0x15F, 1), (0x165, 1), (0x17A, 1), (0x2DD, 1), (0x17E, 1), (0x17C, 1),
    (0x154, 1), (0xC1, 2), (0x102, 1), (0xC4, 1), (0x139, 1), (0x106, 1), (0xC7, 1), (0x10C, 1),
    (0xC9, 1), (0x118, 1), (0xCB, 1), (0x11A, 1), (0xCD, 2), (0x10E, 1), (0x110, 1), (0x143, 1),
    (0x147, 1), (0xD3, 2), (0x150, 1), (0xD6, 2), (0x158, 1), (0x16E, 1), (0xDA, 1), (0x170, 1),
    (0xDC, 2), (0x162, 1), (0xDF, 1), (0x155, 1), (0xE1, 2), (0x103, 1), (0xE4, 1), (0x13A, 1),
    (0x107, 1), (0xE7, 1), (0x10D, 1), (0xE9, 1), (0x119, 1), (0xEB, 1), (0x11B, 1), (0xED, 2),
    (0x10F, 1), (0x111, 1), (0x144, 1), (0x148, 1), (0xF3, 2), (0x151, 1), (0xF6, 2), (0x159, 1),
    (0x16F, 1), (0xFA, 1), (0x171, 1), (0xFC, 2), (0x163, 1), (0x2D9, 1)]

/-- The upper half of ISO-8859-15. -/
def latin9Page : Page :=
  [(0x80, 36), (0x20AC, 1), (0xA5, 1), (0x160, 1), (0xA7, 1), (0x161, 1), (0xA9, 11), (0x17D, 1),
    (0xB5, 3), (0x17E, 1), (0xB9, 3), (0x152, 2), (0x178, 1), (0xBF, 65)]

/-- The upper half of KOI8-R. -/
def koi8rPage : Page :=
  [(0x2500, 1), (0x2502, 1), (0x250C, 1), (0x2510, 1), (0x2514, 1), (0x2518, 1), (0x251C, 1),
    (0x2524, 1), (0x252C, 1), (0x2534, 1), (0x253C, 1), (0x2580, 1), (0x2584, 1), (0x2588, 1),
    (0x258C, 1), (0x2590, 4), (0x2320, 1), (0x25A0, 1), (0x2219, 2), (0x2248, 1), (0x2264, 2),
    (0xA0, 1), (0x2321, 1), (0xB0, 1), (0xB2, 1), (0xB7, 1), (0xF7, 1), (0x2550, 3), (0x451, 1),
    (0x2553, 15), (0x401, 1), (0x2562, 11), (0xA9, 1), (0x44E, 1), (0x430, 2), (0x446, 1),
    (0x434, 2), (0x444, 1), (0x433, 1), (0x445, 1), (0x438, 8), (0x44F, 1), (0x440, 4),
    (0x436, 1), (0x432, 1), (0x44C, 1), (0x44B, 1), (0x437, 1), (0x448, 1), (0x44D, 1),
    (0x449, 1), (0x447, 1), (0x44A, 1), (0x42E, 1), (0x410, 2), (0x426, 1), (0x414, 2),
    (0x424, 1), (0x413, 1), (0x425, 1), (0x418, 8), (0x42F, 1), (0x420, 4), (0x416, 1),
    (0x412, 1), (0x42C, 1), (0x42B, 1), (0x417, 1), (0x428, 1), (0x42D, 1), (0x429, 1),
    (0x427, 1), (0x42A, 1)]

/-- The upper half of macintosh. -/
def macintoshPage : Page :=
  [(0xC4, 2), (0xC7, 1), (0xC9, 1), (0xD1, 1), (0xD6, 1), (0xDC, 1), (0xE1, 1), (0xE0, 1),
    (0xE2, 1), (0xE4, 1), (0xE3, 1), (0xE5, 1), (0xE7, 1), (0xE9, 1), (0xE8, 1), (0xEA, 2),
    (0xED, 1), (0xEC, 1), (0xEE, 2), (0xF1, 1), (0xF3, 1), (0xF2, 1), (0xF4, 1), (0xF6, 1),
    (0xF5, 1), (0xFA, 1), (0xF9, 1), (0xFB, 2), (0x2020, 1), (0xB0, 1), (0xA2, 2), (0xA7, 1),
    (0x2022, 1), (0xB6, 1), (0xDF, 1), (0xAE, 1), (0xA9, 1), (0x2122, 1), (0xB4, 1), (0xA8, 1),
    (0x2260, 1), (0xC6, 1), (0xD8, 1), (0x221E, 1), (0xB1, 1), (0x2264, 2), (0xA5, 1), (0xB5, 1),
    (0x2202, 1), (0x2211, 1), (0x220F, 1), (0x3C0, 1), (0x222B, 1), (0xAA, 1), (0xBA, 1),
    (0x3A9, 1), (0xE6, 1), (0xF8, 1), (0xBF, 1), (0xA1, 1), (0xAC, 1), (0x221A, 1), (0x192, 1),
    (0x2248, 1), (0x2206, 1), (0xAB, 1), (0xBB, 1), (0x2026, 1), (0xA0, 1), (0xC0, 1), (0xC3, 1),
    (0xD5, 1), (0x152, 2), (0x2013, 2), (0x201C, 2), (0x2018, 2), (0xF7, 1), (0x25CA, 1),
    (0xFF, 1), (0x178, 1), (0x2044, 1), (0x20AC, 1), (0x2039, 2), (0xFB01, 2), (0x2021, 1),
    (0xB7, 1), (0x201A, 1), (0x201E, 1), (0x2030, 1), (0xC2, 1), (0xCA, 1), (0xC1, 1), (0xCB, 1),
    (0xC8, 1), (0xCD, 3), (0xCC, 1), (0xD3, 2), (0xF8FF, 1), (0xD2, 1), (0xDA, 2), (0xD9, 1),
    (0x131, 1), (0x2C6, 1), (0x2DC, 1), (0xAF, 1), (0x2D8, 3), (0xB8, 1), (0x2DD, 1), (0x2DB, 1),
    (0x2C7, 1)]

/-- The upper half of windows-1251. -/
def windows1251Page : Page :=
  [(0x402, 2), (0x201A, 1), (0x453, 1), (0x201E, 1), (0x2026, 1), (0x2020, 2), (0x20AC, 1),
    (0x2030, 1), (0x409, 1), (0x2039, 1), (0x40A, 1), (0x40C, 1), (0x40B, 1), (0x40F, 1),
    (0x452, 1), (0x2018, 2), (0x201C, 2), (0x2022, 1), (0x2013, 2), (0x98, 1), (0x2122, 1),
    (0x459, 1), (0x203A, 1), (0x45A, 1), (0x45C, 1), (0x45B, 1), (0x45F, 1), (0xA0, 1),
    (0x40E, 1), (0x45E, 1), (0x408, 1), (0xA4, 1), (0x490, 1), (0xA6, 2), (0x401, 1), (0xA9, 1),
    (0x404, 1), (0xAB, 4), (0x407, 1), (0xB0, 2), (0x406, 1), (0x456, 1), (0x491, 1), (0xB5, 3),
    (0x451, 1), (0x2116, 1), (0x454, 1), (0xBB, 1), (0x458, 1), (0x405, 1), (0x455, 1),
    (0x457, 1), (0x410, 64)]

/-- The upper half of windows-1252. -/
def windows1252Page : Page :=
  [(0x20AC, 1), (0x81, 1), (0x201A, 1), (0x192, 1), (0x201E, 1), (0x2026, 1), (0x2020, 2),
    (0x2C6, 1), (0x2030, 1), (0x160, 1), (0x2039, 1), (0x152, 1), (0x8D, 1), (0x17D, 1),
    (0x8F, 2), (0x2018, 2), (0x201C, 2), (0x2022, 1), (0x2013, 2), (0x2DC, 1), (0x2122, 1),
    (0x161, 1), (0x203A, 1), (0x153, 1), (0x9D, 1), (0x17E, 1), (0x178, 1), (0xA0, 96)]

end Markup.Encoding
