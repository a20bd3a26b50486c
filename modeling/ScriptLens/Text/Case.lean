import ScriptLens.Text.Basic

/-!
# Letter case

Case maps are kept as runs `(first, last, step, offset)`: every `step`-th code point from `first` to
`last` is moved by `offset`.
-/

namespace ScriptLens.Text

/-- The runs of a text that writes letters with their images. -/
def pairs : List Char → List (Nat × Nat × Nat × Int)
  | c :: d :: l => (c.toNat, c.toNat, 1, (d.toNat : Int) - c.toNat) :: pairs l
  | _ => []

def capitalRuns : List (Nat × Nat × Nat × Int) := [
    (97, 122, 1, -32), (224, 246, 1, -32), (248, 254, 1, -32), (257, 303, 2, -1),
    (307, 311, 2, -1), (314, 328, 2, -1), (331, 375, 2, -1), (378, 382, 2, -1), (387, 389, 2, -1),
    (417, 421, 2, -1), (436, 438, 2, -1), (462, 476, 2, -1), (479, 495, 2, -1), (505, 543, 2, -1),
    (547, 563, 2, -1), (575, 576, 1, 10815), (583, 591, 2, -1), (598, 599, 1, -205),
    (650, 651, 1, -217), (837, 837, 1, 84), (881, 883, 2, -1), (891, 893, 1, 130),
    (941, 943, 1, -37), (945, 961, 1, -32), (963, 971, 1, -32), (973, 974, 1, -63),
    (985, 1007, 2, -1), (1072, 1103, 1, -32), (1104, 1119, 1, -80), (1121, 1153, 2, -1),
    (1163, 1215, 2, -1), (1218, 1230, 2, -1), (1233, 1327, 2, -1), (1377, 1414, 1, -48),
    (4304, 4346, 1, 3008), (4349, 4351, 1, 3008), (5112, 5117, 1, -8), (7299, 7300, 1, -6242),
    (7681, 7829, 2, -1), (7841, 7935, 2, -1), (7936, 7943, 1, 8), (7952, 7957, 1, 8),
    (7968, 7975, 1, 8), (7984, 7991, 1, 8), (8000, 8005, 1, 8), (8017, 8023, 2, 8),
    (8032, 8039, 1, 8), (8048, 8049, 1, 74), (8050, 8053, 1, 86), (8054, 8055, 1, 100),
    (8056, 8057, 1, 128), (8058, 8059, 1, 112), (8060, 8061, 1, 126), (8112, 8113, 1, 8),
    (8126, 8126, 1, -7205), (8144, 8145, 1, 8), (8160, 8161, 1, 8), (8560, 8575, 1, -16),
    (9424, 9449, 1, -26), (11312, 11359, 1, -48), (11368, 11372, 2, -1), (11393, 11491, 2, -1),
    (11500, 11502, 2, -1), (11520, 11557, 1, -7264), (42561, 42605, 2, -1), (42625, 42651, 2, -1),
    (42787, 42799, 2, -1), (42803, 42863, 2, -1), (42874, 42876, 2, -1), (42879, 42887, 2, -1),
    (42897, 42899, 2, -1), (42903, 42921, 2, -1), (42933, 42947, 2, -1), (42952, 42954, 2, -1),
    (42967, 42969, 2, -1), (43888, 43967, 1, -38864), (65345, 65370, 1, -32),
    (66600, 66639, 1, -40), (66776, 66811, 1, -40), (66967, 66977, 1, -39), (66979, 66993, 1, -39),
    (66995, 67001, 1, -39), (67003, 67004, 1, -39), (68800, 68850, 1, -64), (71872, 71903, 1, -32),
    (93792, 93823, 1, -32), (125218, 125251, 1, -34)]
  ++ pairs ([
    "µΜÿŸıIſSƀɃƈƇƌƋƒƑƕǶƙƘƚȽƞȠƨƧƭƬưƯƹƸƽƼƿǷǅǄǆǄǈǇǉǇǋǊǌǊǝƎǲǱǳǱǵǴȼȻɂɁɐⱯɑⱭɒⱰɓƁɔƆəƏɛƐɜꞫɠƓɡꞬɣƔɥꞍɦꞪɨƗɩƖɪꞮ",
    "ɫⱢɬꞭɯƜɱⱮɲƝɵƟɽⱤʀƦʂꟅʃƩʇꞱʈƮʉɄʌɅʒƷʝꞲʞꞰͷͶάΆςΣόΌϐΒϑΘϕΦϖΠϗϏϰΚϱΡϲϹϳͿϵΕϸϷϻϺӏӀᲀВᲁДᲂОᲅТᲆЪᲇѢᲈꙊᵹꝽᵽⱣᶎꟆẛṠῥῬ",
    "ⅎℲↄↃⱡⱠⱥȺⱦȾⱳⱲⱶⱵⳳⳲⴧჇⴭჍꞌꞋꞔꟄꟑꟐꟶꟵꭓꞳ"].flatMap String.toList)

/-- Letters whose capital form has several letters: Greek letters with a iota below, and others. -/
def wideCapitals : List (Nat × List Nat) :=
  [(8064, 7944), (8072, 7944), (8080, 7976), (8088, 7976), (8096, 8040), (8104, 8040)].flatMap
    (fun (small, capital) => (List.range 8).map fun i => (small + i, [capital + i, 921]))
  ++ [
    (223, [83, 83]), (329, [700, 78]), (496, [74, 780]), (912, [921, 776, 769]),
    (944, [933, 776, 769]), (1415, [1333, 1362]), (7830, [72, 817]), (7831, [84, 776]),
    (7832, [87, 778]), (7833, [89, 778]), (7834, [65, 702]), (8016, [933, 787]),
    (8018, [933, 787, 768]), (8020, [933, 787, 769]), (8022, [933, 787, 834]), (8114, [8122, 921]),
    (8115, [913, 921]), (8116, [902, 921]), (8118, [913, 834]), (8119, [913, 834, 921]),
    (8124, [913, 921]), (8130, [8138, 921]), (8131, [919, 921]), (8132, [905, 921]),
    (8134, [919, 834]), (8135, [919, 834, 921]), (8140, [919, 921]), (8146, [921, 776, 768]),
    (8147, [921, 776, 769]), (8150, [921, 834]), (8151, [921, 776, 834]), (8162, [933, 776, 768]),
    (8163, [933, 776, 769]), (8164, [929, 787]), (8166, [933, 834]), (8167, [933, 776, 834]),
    (8178, [8186, 921]), (8179, [937, 921]), (8180, [911, 921]), (8182, [937, 834]),
    (8183, [937, 834, 921]), (8188, [937, 921]), (64256, [70, 70]), (64257, [70, 73]),
    (64258, [70, 76]), (64259, [70, 70, 73]), (64260, [70, 70, 76]), (64261, [83, 84]),
    (64262, [83, 84]), (64275, [1348, 1350]), (64276, [1348, 1333]), (64277, [1348, 1339]),
    (64278, [1358, 1350]), (64279, [1348, 1341])]

def smallRuns : List (Nat × Nat × Nat × Int) :=
  pairs "ǄǆǅǆǇǉǈǉǊǌǋǌǱǳǲǳΙιϴθẞßᾼᾳῌῃῼῳ".toList
  ++ [
    (8072, 8079, 1, -8), (8088, 8095, 1, -8), (8104, 8111, 1, -8), (8486, 8486, 1, -7517),
    (8490, 8490, 1, -8383), (8491, 8491, 1, -8262)]
  ++ capitalRuns.map fun (first, last, step, offset) =>
    ((first + offset).toNat, (last + offset).toNat, step, -offset)

def shift (runs : List (Nat × Nat × Nat × Int)) (c : Nat) : Nat :=
  match runs.find? fun (first, last, step, _) => first ≤ c && c ≤ last && (c - first) % step == 0 with
  | some (_, _, _, offset) => ((c : Int) + offset).toNat
  | none => c

def lowerPoint (c : Nat) : Nat :=
  if c < 128 then (if 65 ≤ c && c ≤ 90 then c + 32 else c) else shift smallRuns c

def upperPoint (c : Nat) : List Nat :=
  if c < 128 then [if 97 ≤ c && c ≤ 122 then c - 32 else c]
  else match wideCapitals.find? fun p => p.1 == c with
    | some (_, l) => l
    | none => [shift capitalRuns c]

def upper (t : Text) : Text := ofList (t.toList.flatMap upperPoint)

/-- The text in small letters; the dotted capital I becomes an i with a dot above. -/
def lower (t : Text) : Text :=
  ofList (t.toList.flatMap fun c => if c == 0x130 then [0x69, 0x307] else [lowerPoint c])

end ScriptLens.Text
