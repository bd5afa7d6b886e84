import TypeCatalog.Text.CodePoints

namespace TypeCatalog.Text

/-! Letters that take fewer columns together than alone, by script. -/

/-- Arabic letters of the shape of alef, which joins a lam before it. -/
def alefs : CodePoints :=
  [(0x622, 0x623), (0x625, 0x625), (0x627, 0x627), (0x671, 0x673), (0x675, 0x675), (0x773, 0x774),
    (0x870, 0x882)]

def lams : CodePoints :=
  [(0x644, 0x644), (0x6b5, 0x6b8), (0x76a, 0x76a), (0x8a6, 0x8a6), (0x8c7, 0x8c7)]

/-- Khmer letters that are written below the letter before them, after the sign for that. -/
def subscripts : CodePoints :=
  [(0x1780, 0x1782), (0x1784, 0x1787), (0x1789, 0x178c), (0x178e, 0x1793), (0x1795, 0x1798),
    (0x179b, 0x179d), (0x17a0, 0x17a0), (0x17a2, 0x17a2), (0x17a7, 0x17a7), (0x17ab, 0x17ac),
    (0x17af, 0x17af)]

def tifinagh : CodePoints := [(0x2d31, 0x2d65), (0x2d6f, 0x2d6f)]

/-- The tones of Lisu that may stand first and last in a pair. -/
def firstTones : CodePoints := [(0xa4f8, 0xa4fb)]

def lastTones : CodePoints := [(0xa4fc, 0xa4fd)]

/-- Quotation marks that a selector makes wide. -/
def quotationMarks : CodePoints := [(0x2018, 0x2019), (0x201c, 0x201d)]

/-- Ignored characters that do not keep two letters apart. -/
def selectors : CodePoints :=
  [(0x34f, 0x34f), (0x17b4, 0x17b5), (0x180b, 0x180d), (0x180f, 0x180f), (0xfe00, 0xfe0f),
    (0xe0100, 0xe01ef)]

end TypeCatalog.Text
