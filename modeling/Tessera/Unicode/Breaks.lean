/-
**Where texts may be divided.**

Three properties of characters say where a text may be divided into what a reader takes for a
character, into words and into sentences.  Each of them sorts the characters into classes.  Classes
that other properties describe are made up from these; the tables list the rest, each class under its
short and its long name, in lower case and without underscores.

Main definitions:

* `Tessera.graphemeBreak?`, `Tessera.wordBreak?`, `Tessera.sentenceBreak?` — the classes.
-/

import Tessera.Unicode.Binary

set_option autoImplicit false

namespace Tessera

open CodePointSet

/-- Zero-width joiners. -/
def joiner : CodePointSet := single 0x200D

/-- The characters that spell out what a flag stands for. -/
def tags : CodePointSet := range 0xE0020 0xE007F

/-- The combining marks that extend what a reader takes for a character, and those beside it. -/
def extenders : CodePointSet := graphemeExtend.union (categories ["mc"])

/-! ### Characters -/

/-- Syllables without a final consonant. -/
def openSyllables : CodePointSet :=
  ⟨(List.range 399).map fun k => (0xAC00 + 28 * k, 0xAC00 + 28 * k)⟩

/-- Classes of characters that stand for themselves. -/
def graphemeClasses : List (List String × CodePointSet) := namedSets
    "cr: D;
    l: 1100-115F A960-A97C;
    lf: A;
    pp prepend: 600-605 6DD 70F 890-891 8E2 D4E 110BD 110CD 111C2-111C3 1193F 11941 11A3A
    11A84-11A89 11D46 11F02;
    ri regionalindicator: 1F1E6-1F1FF;
    sm spacingmark: 903 93B 93E-940 949-94C 94E-94F 982-983 9BF-9C0 9C7-9C8 9CB-9CC A03 A3E-A40
    A83 ABE-AC0 AC9 ACB-ACC B02-B03 B40 B47-B48 B4B-B4C BBF BC1-BC2 BC6-BC8 BCA-BCC C01-C03
    C41-C44 C82-C83 CBE CC0-CC1 CC3-CC4 CC7-CC8 CCA-CCB CF3 D02-D03 D3F-D40 D46-D48 D4A-D4C
    D82-D83 DD0-DD1 DD8-DDE DF2-DF3 E33 EB3 F3E-F3F F7F 1031 103B-103C 1056-1057 1084 1715 1734
    17B6 17BE-17C5 17C7-17C8 1923-1926 1929-192B 1930-1931 1933-1938 1A19-1A1A 1A55 1A57
    1A6D-1A72 1B04 1B3B 1B3D-1B41 1B43-1B44 1B82 1BA1 1BA6-1BA7 1BAA 1BE7 1BEA-1BEC 1BEE
    1BF2-1BF3 1C24-1C2B 1C34-1C35 1CE1 1CF7 A823-A824 A827 A880-A881 A8B4-A8C3 A952-A953 A983
    A9B4-A9B5 A9BA-A9BB A9BE-A9C0 AA2F-AA30 AA33-AA34 AA4D AAEB AAEE-AAEF AAF5 ABE3-ABE4
    ABE6-ABE7 ABE9-ABEA ABEC 11000 11002 11082 110B0-110B2 110B7-110B8 1112C 11145-11146 11182
    111B3-111B5 111BF-111C0 111CE 1122C-1122E 11232-11233 11235 112E0-112E2 11302-11303 1133F
    11341-11344 11347-11348 1134B-1134D 11362-11363 11435-11437 11440-11441 11445 114B1-114B2
    114B9 114BB-114BC 114BE 114C1 115B0-115B1 115B8-115BB 115BE 11630-11632 1163B-1163C 1163E
    116AC 116AE-116AF 116B6 11726 1182C-1182E 11838 11931-11935 11937-11938 1193D 11940 11942
    119D1-119D3 119DC-119DF 119E4 11A39 11A57-11A58 11A97 11C2F 11C3E 11CA9 11CB1 11CB4
    11D8A-11D8E 11D93-11D94 11D96 11EF5-11EF6 11F03 11F34-11F35 11F3E-11F3F 11F41 16F51-16F87
    16FF0-16FF1 1D166 1D16D;
    t: 11A8-11FF D7CB-D7FB;
    v: 1160-11A7 D7B0-D7C6;
    zwj: 200D;"

/-- Controls and invisible characters. -/
def graphemeControls : CodePointSet :=
  ((categories ["zl", "zp", "cc", "cf"]).union (defaultIgnorable.diff assigned)).diff
    (unions [single 0xA, single 0xD, range 0x200C 0x200D, prependedMark, tags])

/-- The classes of characters for the division into characters. -/
def graphemeBreak? (name : String) : Option CodePointSet :=
  if name = "cn" ∨ name = "control" then some graphemeControls
  else if name = "ex" ∨ name = "extend" then some ((graphemeExtend.union emojiModifier).diff joiner)
  else if name = "lv" then some openSyllables
  else if name = "lvt" then some ((range 0xAC00 0xD7A3).diff openSyllables)
  else named? graphemeClasses name

/-! ### Words -/

/-- Classes of characters in words. -/
def wordClasses : List (List String × CodePointSet) := namedSets
    "cr: D;
    dq doublequote: 22;
    ex extendnumlet: 5F 202F 203F-2040 2054 FE33-FE34 FE4D-FE4F FF3F;
    ka katakana: 3031-3035 309B-309C 30A0-30FA 30FC-30FF 31F0-31FF 32D0-32FE 3300-3357 FF66-FF9D
    1AFF0-1AFF3 1AFF5-1AFFB 1AFFD-1AFFE 1B000 1B120-1B122 1B155 1B164-1B167;
    lf: A;
    mb midnumlet: 2E 2018-2019 2024 FE52 FF07 FF0E;
    ml midletter: 3A B7 387 55F 5F4 2027 FE13 FE55 FF1A;
    mn midnum: 2C 3B 37E 589 60C-60D 66C 7F8 2044 FE10 FE14 FE50 FE54 FF0C FF1B;
    nl newline: B-C 85 2028-2029;
    ri regionalindicator: 1F1E6-1F1FF;
    sq singlequote: 27;
    wsegspace: 20 1680 2000-2006 2008-200A 205F 3000;
    zwj: 200D;"

/-- Signs that behave like letters in words. -/
def otherWordLetter : CodePointSet := CodePointSet.ofText
    "2C2-2C5 2D2-2D7 2DE-2DF 2E5-2EB 2ED 2EF-2FF 55A-55C 55E 58A 5F3 A708-A716 A720-A721
    A789-A78A AB5B"

/-- Letters of scripts that do not separate words. -/
def complexContext : CodePointSet := CodePointSet.ofText
    "E01-E30 E32-E33 E40-E46 E81-E82 E84 E86-E8A E8C-EA3 EA5 EA7-EB0 EB2-EB3 EBD EC0-EC4 EC6
    EDC-EDF 1000-102A 103F 1050-1055 105A-105D 1061 1065-1066 106E-1070 1075-1081 108E 1780-17B3
    17D7 17DC 1950-196D 1970-1974 1980-19AB 19B0-19C9 1A20-1A54 1AA7 A9E0-A9E4 A9E6-A9EF
    A9FA-A9FE AA60-AA76 AA7A AA7E-AAAF AAB1 AAB5-AAB6 AAB9-AABD AAC0 AAC2 AADB-AADD 11700-1171A
    11740-11746"

/-- What extends the character before it in a word. -/
def wordExtenders : CodePointSet := (extenders.union emojiModifier).diff joiner

/-- Letters of the Hebrew script. -/
def hebrewLetter : CodePointSet :=
  ((script? "hebr").getD empty).inter (categories ["lo"])

/-- Letters that make up words, in scripts that separate them. -/
def wordLetter : CodePointSet :=
  (alphabetic.union otherWordLetter).diff (unions [ideographic, (named? wordClasses "ka").getD empty,
    (script? "hira").getD empty, wordExtenders, hebrewLetter, complexContext])

/-- The classes of characters for the division into words. -/
def wordBreak? (name : String) : Option CodePointSet :=
  if name = "extend" then some wordExtenders
  else if name = "fo" ∨ name = "format" then
    some ((categories ["cf"]).diff ((range 0x200B 0x200D).union tags))
  else if name = "hl" ∨ name = "hebrewletter" then some hebrewLetter
  else if name = "le" ∨ name = "aletter" then some wordLetter
  else if name = "nu" ∨ name = "numeric" then some (decimalDigit.union (single 0x66B))
  else named? wordClasses name

/-! ### Sentences -/

/-- Classes of characters in sentences. -/
def sentenceClasses : List (List String × CodePointSet) := namedSets
    "at aterm: 2E 2024 FE52 FF0E;
    cl close: 22 27-29 5B 5D 7B 7D AB BB F3A-F3D 169B-169C 2018-201F 2039-203A 2045-2046
    207D-207E 208D-208E 2308-230B 2329-232A 275B-2760 2768-2775 27C5-27C6 27E6-27EF 2983-2998
    29D8-29DB 29FC-29FD 2E00-2E0D 2E1C-2E1D 2E20-2E29 2E42 2E55-2E5C 3008-3011 3014-301B
    301D-301F FD3E-FD3F FE17-FE18 FE35-FE44 FE47-FE48 FE59-FE5E FF08-FF09 FF3B FF3D FF5B FF5D
    FF5F-FF60 FF62-FF63 1F676-1F678;
    cr: D;
    lf: A;
    sc scontinue: 2C-2D 3A 55D 60C-60D 7F8 1802 1808 2013-2014 3001 FE10-FE11 FE13 FE31-FE32
    FE50-FE51 FE55 FE58 FE63 FF0C-FF0D FF1A FF64;
    se sep: 85 2028-2029;"

/-- What extends the character before it in a sentence. -/
def sentenceExtenders : CodePointSet := extenders.union joiner

/-- Small letters in sentences: the small letters of Georgian do not count as such. -/
def sentenceLower : CodePointSet :=
  lowercase.diff (unions [graphemeExtend, range 0x10D0 0x10FA, range 0x10FD 0x10FF])

/-- Capital letters in sentences: those of Georgian do not count as such. -/
def sentenceUpper : CodePointSet :=
  (uppercase.union (categories ["lt"])).diff ((range 0x1C90 0x1CBA).union (range 0x1CBD 0x1CBF))

/-- The classes of characters for the division into sentences. -/
def sentenceBreak? (name : String) : Option CodePointSet :=
  if name = "ex" ∨ name = "extend" then some sentenceExtenders
  else if name = "fo" ∨ name = "format" then
    some ((categories ["cf"]).diff ((range 0x200C 0x200D).union tags))
  else if name = "le" ∨ name = "oletter" then
    some ((alphabetic.union (single 0x5F3)).diff
      (unions [sentenceLower, sentenceUpper, sentenceExtenders]))
  else if name = "lo" ∨ name = "lower" then some sentenceLower
  else if name = "nu" ∨ name = "numeric" then some (decimalDigit.union (range 0x66B 0x66C))
  else if name = "sp" then
    some (whiteSpace.diff (unions [single 0xA, single 0xD, single 0x85, range 0x2028 0x2029]))
  else if name = "st" ∨ name = "sterm" then
    some (sentenceTerminal.diff ((named? sentenceClasses "at").getD empty))
  else if name = "up" ∨ name = "upper" then some sentenceUpper
  else named? sentenceClasses name

end Tessera
