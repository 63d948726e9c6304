/-! # Lowercase letters

The code points with the Lowercase property of Unicode 14, as arithmetic runs. Some have no other
case, such as ligatures and raised letters.
-/

namespace ScriptGlue.Text

def lowercaseRuns : List (Nat × Nat × Nat) :=
  [(97, 122, 1), (170, 170, 1), (181, 181, 1), (186, 186, 1), (223, 246, 1), (248, 255, 1),
   (257, 311, 2), (312, 328, 2), (329, 375, 2), (378, 382, 2), (383, 384, 1), (387, 389, 2),
   (392, 392, 1), (396, 397, 1), (402, 402, 1), (405, 405, 1), (409, 411, 1), (414, 414, 1),
   (417, 421, 2), (424, 426, 2), (427, 429, 2), (432, 432, 1), (436, 438, 2), (441, 442, 1),
   (445, 447, 1), (454, 454, 1), (457, 457, 1), (460, 476, 2), (477, 495, 2), (496, 496, 1),
   (499, 501, 2), (505, 563, 2), (564, 569, 1), (572, 572, 1), (575, 576, 1), (578, 578, 1),
   (583, 591, 2), (592, 659, 1), (661, 696, 1), (704, 705, 1), (736, 740, 1), (837, 837, 1),
   (881, 883, 2), (887, 887, 1), (890, 893, 1), (912, 912, 1), (940, 974, 1), (976, 977, 1),
   (981, 983, 1), (985, 1007, 2), (1008, 1011, 1), (1013, 1013, 1), (1016, 1016, 1),
   (1019, 1020, 1), (1072, 1119, 1), (1121, 1153, 2), (1163, 1215, 2), (1218, 1230, 2),
   (1231, 1327, 2), (1376, 1416, 1), (4304, 4346, 1), (4349, 4351, 1), (5112, 5117, 1),
   (7296, 7304, 1), (7424, 7615, 1), (7681, 7829, 2), (7830, 7837, 1), (7839, 7935, 2),
   (7936, 7943, 1), (7952, 7957, 1), (7968, 7975, 1), (7984, 7991, 1), (8000, 8005, 1),
   (8016, 8023, 1), (8032, 8039, 1), (8048, 8061, 1), (8064, 8071, 1), (8080, 8087, 1),
   (8096, 8103, 1), (8112, 8116, 1), (8118, 8119, 1), (8126, 8126, 1), (8130, 8132, 1),
   (8134, 8135, 1), (8144, 8147, 1), (8150, 8151, 1), (8160, 8167, 1), (8178, 8180, 1),
   (8182, 8183, 1), (8305, 8305, 1), (8319, 8319, 1), (8336, 8348, 1), (8458, 8458, 1),
   (8462, 8463, 1), (8467, 8467, 1), (8495, 8495, 1), (8500, 8500, 1), (8505, 8505, 1),
   (8508, 8509, 1), (8518, 8521, 1), (8526, 8526, 1), (8560, 8575, 1), (8580, 8580, 1),
   (9424, 9449, 1), (11312, 11359, 1), (11361, 11361, 1), (11365, 11366, 1), (11368, 11372, 2),
   (11377, 11379, 2), (11380, 11382, 2), (11383, 11389, 1), (11393, 11491, 2), (11492, 11492, 1),
   (11500, 11502, 2), (11507, 11507, 1), (11520, 11557, 1), (11559, 11559, 1), (11565, 11565, 1),
   (42561, 42605, 2), (42625, 42651, 2), (42652, 42653, 1), (42787, 42799, 2), (42800, 42801, 1),
   (42803, 42863, 2), (42864, 42872, 1), (42874, 42876, 2), (42879, 42887, 2), (42892, 42894, 2),
   (42897, 42899, 2), (42900, 42901, 1), (42903, 42921, 2), (42927, 42927, 1), (42933, 42947, 2),
   (42952, 42954, 2), (42961, 42969, 2), (42998, 43000, 2), (43001, 43002, 1), (43824, 43866, 1),
   (43868, 43880, 1), (43888, 43967, 1), (64256, 64262, 1), (64275, 64279, 1), (65345, 65370, 1),
   (66600, 66639, 1), (66776, 66811, 1), (66967, 66977, 1), (66979, 66993, 1), (66995, 67001, 1),
   (67003, 67004, 1), (67456, 67456, 1), (67459, 67461, 1), (67463, 67504, 1), (67506, 67514, 1),
   (68800, 68850, 1), (71872, 71903, 1), (93792, 93823, 1), (119834, 119859, 1),
   (119886, 119892, 1), (119894, 119911, 1), (119938, 119963, 1), (119990, 119993, 1),
   (119995, 119997, 2), (119998, 120003, 1), (120005, 120015, 1), (120042, 120067, 1),
   (120094, 120119, 1), (120146, 120171, 1), (120198, 120223, 1), (120250, 120275, 1),
   (120302, 120327, 1), (120354, 120379, 1), (120406, 120431, 1), (120458, 120485, 1),
   (120514, 120538, 1), (120540, 120545, 1), (120572, 120596, 1), (120598, 120603, 1),
   (120630, 120654, 1), (120656, 120661, 1), (120688, 120712, 1), (120714, 120719, 1),
   (120746, 120770, 1), (120772, 120777, 1), (120779, 120779, 1), (122624, 122633, 1),
   (122635, 122654, 1), (125218, 125251, 1)]

def isLowercase (c : Char) : Bool :=
  lowercaseRuns.any fun (first, last, stride) =>
    first ≤ c.toNat && c.toNat ≤ last && (c.toNat - first) % stride == 0

example : isLowercase 'a' ∧ isLowercase 'ß' ∧ isLowercase 'ª' ∧ !isLowercase 'A' := by decide

end ScriptGlue.Text
