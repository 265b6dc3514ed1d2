import Eleu.Text.Basic

/-! # Letter case

    Upper and lower case of whole texts by the full Unicode case mapping: a letter may become
    several, and a capital sigma that ends a word becomes the final small sigma. -/

namespace Eleu.Text

/-- A run of letters whose counterparts all lie `offset` away. It has `width` code points and starts
    `gap` ones after the run before it. -/
structure CaseRun where
  gap : Nat
  width : Nat
  offset : Int

/-- Whether the code point at `i` is a letter of the run. Where the counterparts are the neighbours,
    letters and counterparts take turns. -/
def CaseRun.has (r : CaseRun) (i : Nat) : Bool := r.offset.natAbs != 1 || i % 2 == 0

/-- Letters with one lower-case counterpart. -/
def lowerRuns : List CaseRun := [
  ⟨65, 26, 32⟩, ⟨101, 23, 32⟩, ⟨1, 7, 32⟩, ⟨33, 47, 1⟩, ⟨3, 5, 1⟩, ⟨2, 15, 1⟩, ⟨2, 45, 1⟩,
  ⟨1, 1, -121⟩, ⟨0, 5, 1⟩, ⟨3, 1, 210⟩, ⟨0, 3, 1⟩, ⟨1, 1, 206⟩, ⟨0, 1, 1⟩, ⟨1, 2, 205⟩, ⟨0, 1, 1⟩,
  ⟨2, 1, 79⟩, ⟨0, 1, 202⟩, ⟨0, 1, 203⟩, ⟨0, 1, 1⟩, ⟨1, 1, 205⟩, ⟨0, 1, 207⟩, ⟨1, 1, 211⟩,
  ⟨0, 1, 209⟩, ⟨0, 1, 1⟩, ⟨3, 1, 211⟩, ⟨0, 1, 213⟩, ⟨1, 1, 214⟩, ⟨0, 5, 1⟩, ⟨1, 1, 218⟩, ⟨0, 1, 1⟩,
  ⟨1, 1, 218⟩, ⟨2, 1, 1⟩, ⟨1, 1, 218⟩, ⟨0, 1, 1⟩, ⟨1, 2, 217⟩, ⟨0, 3, 1⟩, ⟨1, 1, 219⟩, ⟨0, 1, 1⟩,
  ⟨3, 1, 1⟩, ⟨7, 1, 2⟩, ⟨0, 1, 1⟩, ⟨1, 1, 2⟩, ⟨0, 1, 1⟩, ⟨1, 1, 2⟩, ⟨0, 17, 1⟩, ⟨2, 17, 1⟩,
  ⟨2, 1, 2⟩, ⟨0, 3, 1⟩, ⟨1, 1, -97⟩, ⟨0, 1, -56⟩, ⟨0, 39, 1⟩, ⟨1, 1, -130⟩, ⟨1, 17, 1⟩,
  ⟨7, 1, 10795⟩, ⟨0, 1, 1⟩, ⟨1, 1, -163⟩, ⟨0, 1, 10792⟩, ⟨2, 1, 1⟩, ⟨1, 1, -195⟩, ⟨0, 1, 69⟩,
  ⟨0, 1, 71⟩, ⟨0, 9, 1⟩, ⟨289, 3, 1⟩, ⟨3, 1, 1⟩, ⟨8, 1, 116⟩, ⟨6, 1, 38⟩, ⟨1, 3, 37⟩, ⟨1, 1, 64⟩,
  ⟨1, 2, 63⟩, ⟨1, 17, 32⟩, ⟨1, 9, 32⟩, ⟨35, 1, 8⟩, ⟨8, 23, 1⟩, ⟨5, 1, -60⟩, ⟨2, 1, 1⟩, ⟨1, 1, -7⟩,
  ⟨0, 1, 1⟩, ⟨2, 3, -130⟩, ⟨0, 16, 80⟩, ⟨0, 32, 32⟩, ⟨48, 33, 1⟩, ⟨9, 53, 1⟩, ⟨1, 1, 15⟩,
  ⟨0, 13, 1⟩, ⟨2, 95, 1⟩, ⟨2, 38, 48⟩, ⟨2889, 38, 7264⟩, ⟨1, 1, 7264⟩, ⟨5, 1, 7264⟩,
  ⟨722, 80, 38864⟩, ⟨0, 6, 8⟩, ⟨2195, 1, 1⟩, ⟨6, 43, -3008⟩, ⟨2, 3, -3008⟩, ⟨320, 149, 1⟩,
  ⟨9, 1, -7615⟩, ⟨1, 95, 1⟩, ⟨9, 8, -8⟩, ⟨8, 6, -8⟩, ⟨10, 8, -8⟩, ⟨8, 8, -8⟩, ⟨8, 6, -8⟩,
  ⟨11, 1, -8⟩, ⟨1, 1, -8⟩, ⟨1, 1, -8⟩, ⟨1, 1, -8⟩, ⟨8, 8, -8⟩, ⟨24, 8, -8⟩, ⟨8, 8, -8⟩, ⟨8, 8, -8⟩,
  ⟨8, 2, -8⟩, ⟨0, 2, -74⟩, ⟨0, 1, -9⟩, ⟨11, 4, -86⟩, ⟨0, 1, -9⟩, ⟨11, 2, -8⟩, ⟨0, 2, -100⟩,
  ⟨12, 2, -8⟩, ⟨0, 2, -112⟩, ⟨0, 1, -7⟩, ⟨11, 2, -128⟩, ⟨0, 2, -126⟩, ⟨0, 1, -9⟩, ⟨297, 1, -7517⟩,
  ⟨3, 1, -8383⟩, ⟨0, 1, -8262⟩, ⟨6, 1, 28⟩, ⟨45, 16, 16⟩, ⟨19, 1, 1⟩, ⟨818, 26, 26⟩, ⟨1840, 48, 48⟩,
  ⟨48, 1, 1⟩, ⟨1, 1, -10743⟩, ⟨0, 1, -3814⟩, ⟨0, 1, -10727⟩, ⟨2, 5, 1⟩, ⟨1, 1, -10780⟩,
  ⟨0, 1, -10749⟩, ⟨0, 1, -10783⟩, ⟨0, 1, -10782⟩, ⟨1, 1, 1⟩, ⟨2, 1, 1⟩, ⟨8, 2, -10815⟩, ⟨0, 99, 1⟩,
  ⟨8, 3, 1⟩, ⟨4, 1, 1⟩, ⟨31053, 45, 1⟩, ⟨19, 27, 1⟩, ⟨135, 13, 1⟩, ⟨3, 61, 1⟩, ⟨10, 3, 1⟩,
  ⟨1, 1, -35332⟩, ⟨0, 9, 1⟩, ⟨4, 1, 1⟩, ⟨1, 1, -42280⟩, ⟨2, 3, 1⟩, ⟨3, 19, 1⟩, ⟨1, 1, -42308⟩,
  ⟨0, 1, -42319⟩, ⟨0, 1, -42315⟩, ⟨0, 1, -42305⟩, ⟨0, 1, -42308⟩, ⟨1, 1, -42258⟩, ⟨0, 1, -42282⟩,
  ⟨0, 1, -42261⟩, ⟨0, 1, 928⟩, ⟨0, 15, 1⟩, ⟨1, 1, -48⟩, ⟨0, 1, -42307⟩, ⟨0, 1, -35384⟩, ⟨0, 3, 1⟩,
  ⟨1, 1, -42343⟩, ⟨0, 15, 1⟩, ⟨1, 1, -42561⟩, ⟨24, 1, 1⟩, ⟨22315, 26, 32⟩, ⟨1221, 40, 40⟩,
  ⟨136, 36, 40⟩, ⟨156, 11, 39⟩, ⟨1, 15, 39⟩, ⟨1, 7, 39⟩, ⟨1, 2, 39⟩, ⟨1770, 51, 64⟩, ⟨157, 22, 32⟩,
  ⟨2874, 32, 32⟩, ⟨21888, 32, 32⟩, ⟨64, 25, 27⟩, ⟨31303, 34, 34⟩]

/-- Letters with an upper-case counterpart whose lower case is another letter. -/
def upperVariants : List (Nat × Nat) := [
  (181, 924), (305, 73), (383, 83), (453, 452), (456, 455), (459, 458), (498, 497), (837, 921),
  (962, 931), (976, 914), (977, 920), (981, 934), (982, 928), (1008, 922), (1009, 929), (1013, 917),
  (7296, 1042), (7297, 1044), (7298, 1054), (7299, 1057), (7300, 1058), (7301, 1058), (7302, 1066),
  (7303, 1122), (7304, 42570), (7835, 7776), (8126, 921)]

/-- Greek letters with an iota below, in rows of sixteen: where a row starts, and where the capitals
    without the iota start. Each capital stands for a small letter and for a capital of the row. -/
def iotaRows : List (Nat × Nat) := [(8064, 7944), (8080, 7976), (8096, 8040)]

/-- The upper case of the letters of these rows: the iota becomes a letter of its own. -/
def iotaSequences : List (Nat × List Nat) :=
  iotaRows.flatMap fun (first, capital) =>
    (List.range 16).map fun i => (first + i, [capital + i % 8, 921])

/-- Other letters whose upper case is several letters. -/
def upperSequences : List (Nat × List Nat) := [
  (223, [83, 83]), (329, [700, 78]), (496, [74, 780]), (912, [921, 776, 769]),
  (944, [933, 776, 769]), (1415, [1333, 1362]), (7830, [72, 817]), (7831, [84, 776]),
  (7832, [87, 778]), (7833, [89, 778]), (7834, [65, 702]), (8016, [933, 787]),
  (8018, [933, 787, 768]), (8020, [933, 787, 769]), (8022, [933, 787, 834]), (8114, [8122, 921]),
  (8115, [913, 921]), (8116, [902, 921]), (8118, [913, 834]), (8119, [913, 834, 921]),
  (8124, [913, 921]), (8130, [8138, 921]), (8131, [919, 921]), (8132, [905, 921]),
  (8134, [919, 834]), (8135, [919, 834, 921]), (8140, [919, 921]), (8146, [921, 776, 768]),
  (8147, [921, 776, 769]), (8150, [921, 834]), (8151, [921, 776, 834]), (8162, [933, 776, 768]),
  (8163, [933, 776, 769]), (8164, [929, 787]), (8166, [933, 834]), (8167, [933, 776, 834]),
  (8178, [8186, 921]), (8179, [937, 921]), (8180, [911, 921]), (8182, [937, 834]),
  (8183, [937, 834, 921]), (8188, [937, 921]), (64256, [70, 70]), (64257, [70, 73]),
  (64258, [70, 76]), (64259, [70, 70, 73]), (64260, [70, 70, 76]), (64261, [83, 84]),
  (64262, [83, 84]), (64275, [1348, 1350]), (64276, [1348, 1333]), (64277, [1348, 1339]),
  (64278, [1358, 1350]), (64279, [1348, 1341])]

/-- Code points with the property Cased. -/
def casedRuns : List Nat := [
  65, 26, 6, 26, 47, 1, 10, 1, 4, 1, 5, 23, 1, 31, 1, 195, 1, 4, 4, 208, 2, 35, 7, 2, 30, 5, 96, 1,
  42, 4, 2, 2, 2, 4, 1, 1, 6, 1, 1, 3, 1, 1, 1, 20, 1, 83, 1, 139, 8, 166, 1, 38, 9, 41, 2839, 38,
  1, 1, 5, 1, 2, 43, 1, 4, 672, 86, 2, 6, 2178, 11, 5, 43, 2, 3, 64, 192, 64, 278, 2, 6, 2, 38, 2,
  6, 2, 8, 1, 1, 1, 1, 1, 1, 1, 31, 2, 53, 1, 7, 1, 1, 3, 3, 1, 7, 3, 4, 2, 6, 4, 13, 5, 3, 1, 7,
  116, 1, 13, 1, 16, 13, 101, 1, 4, 1, 2, 10, 1, 1, 3, 5, 6, 1, 1, 1, 1, 1, 1, 4, 1, 6, 4, 1, 2, 4,
  5, 5, 4, 1, 17, 32, 3, 2, 817, 52, 1814, 229, 6, 4, 3, 2, 12, 38, 1, 1, 5, 1, 30994, 46, 18, 30,
  132, 102, 3, 4, 1, 77, 20, 6, 1, 3, 821, 43, 1, 14, 6, 80, 20288, 7, 12, 5, 1033, 26, 6, 26, 1189,
  80, 96, 36, 4, 36, 116, 11, 1, 15, 1, 7, 1, 2, 1, 11, 1, 15, 1, 7, 1, 2, 451, 1, 2, 3, 1, 42, 1,
  9, 1221, 51, 13, 51, 93, 22, 10, 22, 2842, 64, 21856, 64, 32, 25, 2, 25, 25900, 85, 1, 71, 1, 2,
  2, 1, 2, 2, 2, 4, 1, 12, 1, 1, 1, 7, 1, 65, 1, 4, 2, 8, 1, 7, 1, 28, 1, 4, 1, 5, 1, 1, 3, 7, 1,
  340, 2, 25, 1, 25, 1, 31, 1, 25, 1, 31, 1, 25, 1, 31, 1, 25, 1, 31, 1, 25, 1, 8, 1844, 10, 1, 20,
  6, 6, 261, 62, 2194, 68, 2028, 26, 6, 26, 6, 26]

/-- Code points with the property Case_Ignorable. -/
def caseIgnorableRuns : List Nat := [
  39, 1, 6, 1, 11, 1, 35, 1, 1, 1, 71, 1, 4, 1, 1, 1, 4, 1, 2, 2, 503, 192, 4, 2, 4, 1, 9, 2, 1, 1,
  251, 7, 207, 1, 5, 1, 49, 45, 1, 1, 1, 2, 1, 2, 1, 1, 44, 1, 11, 6, 10, 11, 1, 1, 35, 1, 10, 21,
  16, 1, 101, 8, 1, 10, 1, 4, 33, 1, 1, 1, 30, 27, 91, 11, 58, 11, 4, 1, 2, 1, 24, 24, 43, 3, 44, 1,
  7, 2, 5, 9, 41, 58, 55, 1, 1, 1, 4, 8, 4, 1, 3, 7, 10, 2, 13, 1, 15, 1, 58, 1, 4, 4, 8, 1, 20, 2,
  26, 1, 2, 2, 57, 1, 4, 2, 4, 2, 2, 3, 3, 1, 30, 2, 3, 1, 11, 2, 57, 1, 4, 5, 1, 2, 4, 1, 20, 2,
  22, 6, 1, 1, 58, 1, 2, 1, 1, 4, 8, 1, 7, 2, 11, 2, 30, 1, 61, 1, 12, 1, 50, 1, 3, 1, 55, 1, 1, 3,
  5, 3, 1, 4, 7, 2, 11, 2, 29, 1, 58, 1, 2, 1, 6, 1, 5, 2, 20, 2, 28, 2, 57, 2, 4, 4, 8, 1, 20, 2,
  29, 1, 72, 1, 7, 3, 1, 1, 90, 1, 2, 7, 11, 9, 98, 1, 2, 9, 9, 1, 1, 7, 73, 2, 27, 1, 1, 1, 1, 1,
  55, 14, 1, 5, 1, 2, 5, 11, 1, 36, 9, 1, 102, 4, 1, 6, 1, 2, 2, 2, 25, 2, 4, 3, 16, 4, 13, 1, 2, 2,
  6, 1, 15, 1, 94, 1, 608, 3, 946, 3, 29, 2, 30, 2, 30, 2, 64, 2, 1, 7, 8, 1, 2, 11, 3, 1, 5, 1, 45,
  5, 51, 1, 65, 2, 34, 1, 118, 3, 4, 2, 9, 1, 6, 3, 219, 2, 2, 1, 58, 1, 1, 7, 1, 1, 1, 1, 2, 8, 6,
  10, 2, 1, 39, 1, 8, 46, 2, 12, 20, 4, 48, 1, 1, 5, 1, 1, 5, 1, 40, 9, 12, 2, 32, 4, 2, 2, 1, 3,
  56, 1, 1, 2, 3, 1, 1, 3, 58, 8, 2, 2, 64, 6, 82, 3, 1, 13, 1, 7, 4, 1, 6, 1, 3, 2, 50, 63, 13, 1,
  34, 101, 445, 1, 1, 3, 11, 3, 13, 3, 13, 3, 13, 2, 12, 5, 8, 2, 10, 1, 2, 1, 2, 5, 49, 5, 1, 10,
  1, 1, 13, 1, 16, 13, 51, 33, 2955, 2, 113, 3, 125, 1, 15, 1, 96, 32, 47, 1, 469, 1, 36, 4, 3, 5,
  5, 1, 93, 6, 93, 3, 28438, 1, 1250, 6, 270, 1, 98, 4, 1, 10, 1, 1, 28, 4, 80, 2, 14, 34, 78, 1,
  23, 3, 102, 4, 3, 2, 8, 1, 3, 1, 4, 1, 25, 2, 5, 1, 151, 2, 26, 18, 13, 1, 38, 8, 25, 11, 46, 3,
  48, 1, 2, 4, 2, 2, 17, 1, 21, 2, 66, 6, 2, 2, 2, 2, 12, 1, 8, 1, 35, 1, 11, 1, 51, 1, 1, 3, 2, 2,
  5, 2, 1, 1, 27, 1, 14, 2, 5, 2, 1, 1, 100, 5, 9, 3, 121, 1, 2, 1, 4, 1, 20272, 1, 147, 17, 573,
  16, 3, 1, 12, 16, 34, 1, 2, 1, 169, 1, 7, 1, 6, 1, 11, 1, 35, 1, 1, 1, 47, 1, 45, 2, 67, 1, 21, 3,
  513, 1, 226, 1, 149, 5, 1029, 6, 1, 42, 1, 9, 582, 3, 1, 2, 5, 4, 40, 3, 4, 1, 165, 2, 573, 4, 38,
  1, 26, 5, 1, 1, 315, 2, 24, 1, 52, 6, 70, 11, 49, 4, 123, 1, 54, 15, 41, 1, 2, 2, 10, 3, 49, 4, 2,
  2, 2, 1, 4, 1, 10, 1, 50, 3, 36, 5, 1, 8, 62, 1, 12, 2, 52, 9, 10, 4, 2, 1, 95, 3, 2, 1, 1, 2, 6,
  1, 2, 1, 157, 1, 3, 8, 21, 2, 57, 2, 3, 1, 37, 7, 3, 5, 70, 6, 13, 1, 1, 1, 1, 1, 14, 2, 85, 8, 2,
  3, 1, 1, 23, 1, 84, 6, 1, 1, 4, 2, 1, 2, 238, 4, 6, 2, 1, 2, 27, 2, 85, 8, 2, 1, 1, 2, 106, 1, 1,
  1, 2, 6, 1, 1, 101, 1, 1, 1, 2, 4, 1, 5, 259, 9, 1, 2, 256, 2, 1, 1, 4, 1, 144, 4, 2, 2, 4, 1, 32,
  10, 40, 6, 2, 4, 8, 1, 9, 6, 2, 3, 46, 13, 1, 2, 198, 1, 1, 3, 1, 1, 201, 7, 1, 6, 1, 1, 82, 22,
  2, 7, 1, 2, 1, 2, 122, 6, 3, 1, 1, 2, 1, 7, 1, 1, 72, 2, 3, 1, 1, 1, 65, 1, 281, 2, 11, 2, 52, 5,
  5, 1, 1, 1, 23, 1, 5333, 17, 6, 15, 11464, 12, 3, 3, 2496, 5, 59, 7, 9, 4, 508, 3, 40, 2, 482, 1,
  63, 17, 64, 2, 1, 2, 13, 2, 16380, 4, 1, 7, 1, 2, 3230, 2, 1, 4, 4700, 46, 2, 23, 544, 3, 9, 16,
  2, 7, 30, 4, 148, 3, 1979, 55, 4, 50, 8, 1, 14, 1, 22, 5, 1, 15, 1360, 7, 1, 17, 2, 7, 1, 2, 1, 5,
  5, 62, 33, 1, 160, 14, 368, 1, 61, 4, 507, 5, 254, 2, 243, 1, 2, 1, 7, 2, 5, 1, 9, 1, 464, 7, 109,
  8, 2735, 5, 789505, 1, 30, 96, 128, 240]

/-- How far the counterpart of `c` lies away, by the run that `c` lies in; `c` is counted from the
    end of the run before the first one. -/
def caseOffset : List CaseRun → Nat → Int
  | [], _ => 0
  | r :: rest, c =>
    if c < r.gap + r.width then if r.gap ≤ c && r.has (c - r.gap) then r.offset else 0
    else caseOffset rest (c - (r.gap + r.width))

/-- The counterpart of `c`, and `c` itself outside the runs. -/
def shiftCase (runs : List CaseRun) (c : Nat) : Nat := (c + caseOffset runs c).toNat

/-- The first letter of the runs whose counterpart is `c`. The run before the first one ends at
    `start`. -/
def caseOrigin? : List CaseRun → (start c : Nat) → Option Nat
  | [], _, _ => none
  | r :: rest, start, c =>
    let first := start + r.gap
    let letter := (c - r.offset).toNat
    if first ≤ letter && letter < first + r.width && r.has (letter - first) then some letter
    else caseOrigin? rest (first + r.width) c

/-- Upper case of one character. A letter that has one capital is mostly its lower case. -/
def upperChar (c : Char) : List Char :=
  match (upperSequences ++ iotaSequences).lookup c.toNat with
  | some letters => letters.map Char.ofNat
  | none =>
    let capital? := upperVariants.lookup c.toNat <|> caseOrigin? lowerRuns 0 c.toNat
    [Char.ofNat (capital?.getD c.toNat)]

/-- Lower case of one character on its own. The dotted capital I is the one letter whose lower case
    is a sequence. -/
def lowerChar (c : Char) : List Char :=
  if c.toNat == 304 then [Char.ofNat 105, Char.ofNat 775]
  else [Char.ofNat (shiftCase lowerRuns c.toNat)]

/-- Whether the first character that is not ignorable for case is a cased one. -/
def nextIsCased (cs : List Char) : Bool :=
  match cs.dropWhile (fun c => inRuns caseIgnorableRuns c.toNat) with
  | [] => false
  | c :: _ => inRuns casedRuns c.toNat

/-- Lower case of a text whose characters before it are `before`, nearest first. A capital sigma is
    final when a cased letter goes before it and none follows. -/
def lowerFrom (before : List Char) : List Char → List Char
  | [] => []
  | c :: rest =>
    let letters :=
      if c.toNat == 931 then
        [Char.ofNat (if nextIsCased before && !nextIsCased rest then 962 else 963)]
      else lowerChar c
    letters ++ lowerFrom (c :: before) rest

/-- The text in lower case. -/
def toLower (cs : List Char) : List Char := lowerFrom [] cs

/-- The text in upper case. -/
def toUpper (cs : List Char) : List Char := cs.flatMap upperChar

end Eleu.Text
