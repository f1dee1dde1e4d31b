import OpenApiServer.Text.Unprintable

/-!
# The width of text on a terminal

Characters of East Asian scripts and pictures take two columns; marks that join the character
before them, characters that are ignored by default and the later parts of Hangul syllables take
none. The boundaries of `wide` and `ignorable` are read as those of the other character sets.
-/

namespace OpenApiServer.Text

def wide : List Nat :=
  [0x1100, 0x1160, 0x231a, 0x231c, 0x2329, 0x232b, 0x23e9, 0x23ed, 0x23f0, 0x23f1, 0x23f3,
   0x23f4, 0x25fd, 0x25ff, 0x2614, 0x2616, 0x2648, 0x2654, 0x267f, 0x2680, 0x2693, 0x2694,
   0x26a1, 0x26a2, 0x26aa, 0x26ac, 0x26bd, 0x26bf, 0x26c4, 0x26c6, 0x26ce, 0x26cf, 0x26d4,
   0x26d5, 0x26ea, 0x26eb, 0x26f2, 0x26f4, 0x26f5, 0x26f6, 0x26fa, 0x26fb, 0x26fd, 0x26fe,
   0x2705, 0x2706, 0x270a, 0x270c, 0x2728, 0x2729, 0x274c, 0x274d, 0x274e, 0x274f, 0x2753,
   0x2756, 0x2757, 0x2758, 0x2795, 0x2798, 0x27b0, 0x27b1, 0x27bf, 0x27c0, 0x2b1b, 0x2b1d,
   0x2b50, 0x2b51, 0x2b55, 0x2b56, 0x2e80, 0x2e9a, 0x2e9b, 0x2ef4, 0x2f00, 0x2fd6, 0x2ff0,
   0x2ffc, 0x3000, 0x303f, 0x3041, 0x3097, 0x3099, 0x3100, 0x3105, 0x3130, 0x3131, 0x318f,
   0x3190, 0x31e4, 0x31f0, 0x321f, 0x3220, 0x3248, 0x3250, 0x4dc0, 0x4e00, 0xa48d, 0xa490,
   0xa4c7, 0xa960, 0xa97d, 0xac00, 0xd7a4, 0xf900, 0xfb00, 0xfe10, 0xfe1a, 0xfe30, 0xfe53,
   0xfe54, 0xfe67, 0xfe68, 0xfe6c, 0xff01, 0xff61, 0xffe0, 0xffe7, 0x16fe0, 0x16fe5, 0x16ff0,
   0x16ff2, 0x17000, 0x187f8, 0x18800, 0x18cd6, 0x18d00, 0x18d09, 0x1aff0, 0x1aff4, 0x1aff5,
   0x1affc, 0x1affd, 0x1afff, 0x1b000, 0x1b123, 0x1b150, 0x1b153, 0x1b164, 0x1b168, 0x1b170,
   0x1b2fc, 0x1f004, 0x1f005, 0x1f0cf, 0x1f0d0, 0x1f18e, 0x1f18f, 0x1f191, 0x1f19b, 0x1f200,
   0x1f203, 0x1f210, 0x1f23c, 0x1f240, 0x1f249, 0x1f250, 0x1f252, 0x1f260, 0x1f266, 0x1f300,
   0x1f321, 0x1f32d, 0x1f336, 0x1f337, 0x1f37d, 0x1f37e, 0x1f394, 0x1f3a0, 0x1f3cb, 0x1f3cf,
   0x1f3d4, 0x1f3e0, 0x1f3f1, 0x1f3f4, 0x1f3f5, 0x1f3f8, 0x1f43f, 0x1f440, 0x1f441, 0x1f442,
   0x1f4fd, 0x1f4ff, 0x1f53e, 0x1f54b, 0x1f54f, 0x1f550, 0x1f568, 0x1f57a, 0x1f57b, 0x1f595,
   0x1f597, 0x1f5a4, 0x1f5a5, 0x1f5fb, 0x1f650, 0x1f680, 0x1f6c6, 0x1f6cc, 0x1f6cd, 0x1f6d0,
   0x1f6d3, 0x1f6d5, 0x1f6d8, 0x1f6dd, 0x1f6e0, 0x1f6eb, 0x1f6ed, 0x1f6f4, 0x1f6fd, 0x1f7e0,
   0x1f7ec, 0x1f7f0, 0x1f7f1, 0x1f90c, 0x1f93b, 0x1f93c, 0x1f946, 0x1f947, 0x1fa00, 0x1fa70,
   0x1fa75, 0x1fa78, 0x1fa7d, 0x1fa80, 0x1fa87, 0x1fa90, 0x1faad, 0x1fab0, 0x1fabb, 0x1fac0,
   0x1fac6, 0x1fad0, 0x1fada, 0x1fae0, 0x1fae8, 0x1faf0, 0x1faf7, 0x20000, 0x2fffe, 0x30000,
   0x3fffe]

def ignorable : List Nat :=
  [0xad, 0xae, 0x61c, 0x61d, 0x1160, 0x1200, 0x180e, 0x180f, 0x200b, 0x2010, 0x202a, 0x202f, 0x2060,
   0x2070, 0x3164, 0x3165, 0xd7b0, 0xd800, 0xfeff, 0xff00, 0xffa0, 0xffa1, 0xfff0, 0xfff9, 0xe0000,
   0xe1000]

def charWidth (c : Char) : Nat :=
  if isExtending c || withinBoundaries ignorable c.toNat then 0
  else if withinBoundaries wide c.toNat then 2
  else 1

def width (s : String) : Nat := s.toList.foldr (fun c width => charWidth c + width) 0

end OpenApiServer.Text
