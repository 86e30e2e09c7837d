import Mathlib.Data.Nat.Notation

/-! Two classes of characters, as Unicode 15.0 has them: those that `repr` escapes and those
that `\w` matches. -/

namespace Blackgeorge.Data.Text

/-- The code points of a table of ranges. -/
def inRanges (ranges : List (ℕ × ℕ)) (n : ℕ) : Bool := ranges.any fun r => r.1 ≤ n && n ≤ r.2

/-- The code points from 127 on that `str.isprintable` refuses. -/
def unprintableRanges : List (ℕ × ℕ) :=
  [(127, 160), (173, 173), (888, 889), (896, 899), (907, 907), (909, 909), (930, 930),
    (1328, 1328), (1367, 1368), (1419, 1420), (1424, 1424), (1480, 1487), (1515, 1518),
    (1525, 1541), (1564, 1564), (1757, 1757), (1806, 1807), (1867, 1868), (1970, 1983),
    (2043, 2044), (2094, 2095), (2111, 2111), (2140, 2141), (2143, 2143), (2155, 2159),
    (2191, 2199), (2274, 2274), (2436, 2436), (2445, 2446), (2449, 2450), (2473, 2473),
    (2481, 2481), (2483, 2485), (2490, 2491), (2501, 2502), (2505, 2506), (2511, 2518),
    (2520, 2523), (2526, 2526), (2532, 2533), (2559, 2560), (2564, 2564), (2571, 2574),
    (2577, 2578), (2601, 2601), (2609, 2609), (2612, 2612), (2615, 2615), (2618, 2619),
    (2621, 2621), (2627, 2630), (2633, 2634), (2638, 2640), (2642, 2648), (2653, 2653),
    (2655, 2661), (2679, 2688), (2692, 2692), (2702, 2702), (2706, 2706), (2729, 2729),
    (2737, 2737), (2740, 2740), (2746, 2747), (2758, 2758), (2762, 2762), (2766, 2767),
    (2769, 2783), (2788, 2789), (2802, 2808), (2816, 2816), (2820, 2820), (2829, 2830),
    (2833, 2834), (2857, 2857), (2865, 2865), (2868, 2868), (2874, 2875), (2885, 2886),
    (2889, 2890), (2894, 2900), (2904, 2907), (2910, 2910), (2916, 2917), (2936, 2945),
    (2948, 2948), (2955, 2957), (2961, 2961), (2966, 2968), (2971, 2971), (2973, 2973),
    (2976, 2978), (2981, 2983), (2987, 2989), (3002, 3005), (3011, 3013), (3017, 3017),
    (3022, 3023), (3025, 3030), (3032, 3045), (3067, 3071), (3085, 3085), (3089, 3089),
    (3113, 3113), (3130, 3131), (3141, 3141), (3145, 3145), (3150, 3156), (3159, 3159),
    (3163, 3164), (3166, 3167), (3172, 3173), (3184, 3190), (3213, 3213), (3217, 3217),
    (3241, 3241), (3252, 3252), (3258, 3259), (3269, 3269), (3273, 3273), (3278, 3284),
    (3287, 3292), (3295, 3295), (3300, 3301), (3312, 3312), (3316, 3327), (3341, 3341),
    (3345, 3345), (3397, 3397), (3401, 3401), (3408, 3411), (3428, 3429), (3456, 3456),
    (3460, 3460), (3479, 3481), (3506, 3506), (3516, 3516), (3518, 3519), (3527, 3529),
    (3531, 3534), (3541, 3541), (3543, 3543), (3552, 3557), (3568, 3569), (3573, 3584),
    (3643, 3646), (3676, 3712), (3715, 3715), (3717, 3717), (3723, 3723), (3748, 3748),
    (3750, 3750), (3774, 3775), (3781, 3781), (3783, 3783), (3791, 3791), (3802, 3803),
    (3808, 3839), (3912, 3912), (3949, 3952), (3992, 3992), (4029, 4029), (4045, 4045),
    (4059, 4095), (4294, 4294), (4296, 4300), (4302, 4303), (4681, 4681), (4686, 4687),
    (4695, 4695), (4697, 4697), (4702, 4703), (4745, 4745), (4750, 4751), (4785, 4785),
    (4790, 4791), (4799, 4799), (4801, 4801), (4806, 4807), (4823, 4823), (4881, 4881),
    (4886, 4887), (4955, 4956), (4989, 4991), (5018, 5023), (5110, 5111), (5118, 5119),
    (5760, 5760), (5789, 5791), (5881, 5887), (5910, 5918), (5943, 5951), (5972, 5983),
    (5997, 5997), (6001, 6001), (6004, 6015), (6110, 6111), (6122, 6127), (6138, 6143),
    (6158, 6158), (6170, 6175), (6265, 6271), (6315, 6319), (6390, 6399), (6431, 6431),
    (6444, 6447), (6460, 6463), (6465, 6467), (6510, 6511), (6517, 6527), (6572, 6575),
    (6602, 6607), (6619, 6621), (6684, 6685), (6751, 6751), (6781, 6782), (6794, 6799),
    (6810, 6815), (6830, 6831), (6863, 6911), (6989, 6991), (7039, 7039), (7156, 7163),
    (7224, 7226), (7242, 7244), (7305, 7311), (7355, 7356), (7368, 7375), (7419, 7423),
    (7958, 7959), (7966, 7967), (8006, 8007), (8014, 8015), (8024, 8024), (8026, 8026),
    (8028, 8028), (8030, 8030), (8062, 8063), (8117, 8117), (8133, 8133), (8148, 8149),
    (8156, 8156), (8176, 8177), (8181, 8181), (8191, 8207), (8232, 8239), (8287, 8303),
    (8306, 8307), (8335, 8335), (8349, 8351), (8385, 8399), (8433, 8447), (8588, 8591),
    (9255, 9279), (9291, 9311), (11124, 11125), (11158, 11158), (11508, 11512), (11558, 11558),
    (11560, 11564), (11566, 11567), (11624, 11630), (11633, 11646), (11671, 11679), (11687, 11687),
    (11695, 11695), (11703, 11703), (11711, 11711), (11719, 11719), (11727, 11727), (11735, 11735),
    (11743, 11743), (11870, 11903), (11930, 11930), (12020, 12031), (12246, 12271), (12284, 12288),
    (12352, 12352), (12439, 12440), (12544, 12548), (12592, 12592), (12687, 12687), (12772, 12783),
    (12831, 12831), (42125, 42127), (42183, 42191), (42540, 42559), (42744, 42751), (42955, 42959),
    (42962, 42962), (42964, 42964), (42970, 42993), (43053, 43055), (43066, 43071), (43128, 43135),
    (43206, 43213), (43226, 43231), (43348, 43358), (43389, 43391), (43470, 43470), (43482, 43485),
    (43519, 43519), (43575, 43583), (43598, 43599), (43610, 43611), (43715, 43738), (43767, 43776),
    (43783, 43784), (43791, 43792), (43799, 43807), (43815, 43815), (43823, 43823), (43884, 43887),
    (44014, 44015), (44026, 44031), (55204, 55215), (55239, 55242), (55292, 63743), (64110, 64111),
    (64218, 64255), (64263, 64274), (64280, 64284), (64311, 64311), (64317, 64317), (64319, 64319),
    (64322, 64322), (64325, 64325), (64451, 64466), (64912, 64913), (64968, 64974), (64976, 65007),
    (65050, 65055), (65107, 65107), (65127, 65127), (65132, 65135), (65141, 65141), (65277, 65280),
    (65471, 65473), (65480, 65481), (65488, 65489), (65496, 65497), (65501, 65503), (65511, 65511),
    (65519, 65531), (65534, 65535), (65548, 65548), (65575, 65575), (65595, 65595), (65598, 65598),
    (65614, 65615), (65630, 65663), (65787, 65791), (65795, 65798), (65844, 65846), (65935, 65935),
    (65949, 65951), (65953, 65999), (66046, 66175), (66205, 66207), (66257, 66271), (66300, 66303),
    (66340, 66348), (66379, 66383), (66427, 66431), (66462, 66462), (66500, 66503), (66518, 66559),
    (66718, 66719), (66730, 66735), (66772, 66775), (66812, 66815), (66856, 66863), (66916, 66926),
    (66939, 66939), (66955, 66955), (66963, 66963), (66966, 66966), (66978, 66978), (66994, 66994),
    (67002, 67002), (67005, 67071), (67383, 67391), (67414, 67423), (67432, 67455), (67462, 67462),
    (67505, 67505), (67515, 67583), (67590, 67591), (67593, 67593), (67638, 67638), (67641, 67643),
    (67645, 67646), (67670, 67670), (67743, 67750), (67760, 67807), (67827, 67827), (67830, 67834),
    (67868, 67870), (67898, 67902), (67904, 67967), (68024, 68027), (68048, 68049), (68100, 68100),
    (68103, 68107), (68116, 68116), (68120, 68120), (68150, 68151), (68155, 68158), (68169, 68175),
    (68185, 68191), (68256, 68287), (68327, 68330), (68343, 68351), (68406, 68408), (68438, 68439),
    (68467, 68471), (68498, 68504), (68509, 68520), (68528, 68607), (68681, 68735), (68787, 68799),
    (68851, 68857), (68904, 68911), (68922, 69215), (69247, 69247), (69290, 69290), (69294, 69295),
    (69298, 69372), (69416, 69423), (69466, 69487), (69514, 69551), (69580, 69599), (69623, 69631),
    (69710, 69713), (69750, 69758), (69821, 69821), (69827, 69839), (69865, 69871), (69882, 69887),
    (69941, 69941), (69960, 69967), (70007, 70015), (70112, 70112), (70133, 70143), (70162, 70162),
    (70210, 70271), (70279, 70279), (70281, 70281), (70286, 70286), (70302, 70302), (70314, 70319),
    (70379, 70383), (70394, 70399), (70404, 70404), (70413, 70414), (70417, 70418), (70441, 70441),
    (70449, 70449), (70452, 70452), (70458, 70458), (70469, 70470), (70473, 70474), (70478, 70479),
    (70481, 70486), (70488, 70492), (70500, 70501), (70509, 70511), (70517, 70655), (70748, 70748),
    (70754, 70783), (70856, 70863), (70874, 71039), (71094, 71095), (71134, 71167), (71237, 71247),
    (71258, 71263), (71277, 71295), (71354, 71359), (71370, 71423), (71451, 71452), (71468, 71471),
    (71495, 71679), (71740, 71839), (71923, 71934), (71943, 71944), (71946, 71947), (71956, 71956),
    (71959, 71959), (71990, 71990), (71993, 71994), (72007, 72015), (72026, 72095), (72104, 72105),
    (72152, 72153), (72165, 72191), (72264, 72271), (72355, 72367), (72441, 72447), (72458, 72703),
    (72713, 72713), (72759, 72759), (72774, 72783), (72813, 72815), (72848, 72849), (72872, 72872),
    (72887, 72959), (72967, 72967), (72970, 72970), (73015, 73017), (73019, 73019), (73022, 73022),
    (73032, 73039), (73050, 73055), (73062, 73062), (73065, 73065), (73103, 73103), (73106, 73106),
    (73113, 73119), (73130, 73439), (73465, 73471), (73489, 73489), (73531, 73533), (73562, 73647),
    (73649, 73663), (73714, 73726), (74650, 74751), (74863, 74863), (74869, 74879), (75076, 77711),
    (77811, 77823), (78896, 78911), (78934, 82943), (83527, 92159), (92729, 92735), (92767, 92767),
    (92778, 92781), (92863, 92863), (92874, 92879), (92910, 92911), (92918, 92927), (92998, 93007),
    (93018, 93018), (93026, 93026), (93048, 93052), (93072, 93759), (93851, 93951), (94027, 94030),
    (94088, 94094), (94112, 94175), (94181, 94191), (94194, 94207), (100344, 100351),
    (101590, 101631), (101641, 110575), (110580, 110580), (110588, 110588), (110591, 110591),
    (110883, 110897), (110899, 110927), (110931, 110932), (110934, 110947), (110952, 110959),
    (111356, 113663), (113771, 113775), (113789, 113791), (113801, 113807), (113818, 113819),
    (113824, 118527), (118574, 118575), (118599, 118607), (118724, 118783), (119030, 119039),
    (119079, 119080), (119155, 119162), (119275, 119295), (119366, 119487), (119508, 119519),
    (119540, 119551), (119639, 119647), (119673, 119807), (119893, 119893), (119965, 119965),
    (119968, 119969), (119971, 119972), (119975, 119976), (119981, 119981), (119994, 119994),
    (119996, 119996), (120004, 120004), (120070, 120070), (120075, 120076), (120085, 120085),
    (120093, 120093), (120122, 120122), (120127, 120127), (120133, 120133), (120135, 120137),
    (120145, 120145), (120486, 120487), (120780, 120781), (121484, 121498), (121504, 121504),
    (121520, 122623), (122655, 122660), (122667, 122879), (122887, 122887), (122905, 122906),
    (122914, 122914), (122917, 122917), (122923, 122927), (122990, 123022), (123024, 123135),
    (123181, 123183), (123198, 123199), (123210, 123213), (123216, 123535), (123567, 123583),
    (123642, 123646), (123648, 124111), (124154, 124895), (124903, 124903), (124908, 124908),
    (124911, 124911), (124927, 124927), (125125, 125126), (125143, 125183), (125260, 125263),
    (125274, 125277), (125280, 126064), (126133, 126208), (126270, 126463), (126468, 126468),
    (126496, 126496), (126499, 126499), (126501, 126502), (126504, 126504), (126515, 126515),
    (126520, 126520), (126522, 126522), (126524, 126529), (126531, 126534), (126536, 126536),
    (126538, 126538), (126540, 126540), (126544, 126544), (126547, 126547), (126549, 126550),
    (126552, 126552), (126554, 126554), (126556, 126556), (126558, 126558), (126560, 126560),
    (126563, 126563), (126565, 126566), (126571, 126571), (126579, 126579), (126584, 126584),
    (126589, 126589), (126591, 126591), (126602, 126602), (126620, 126624), (126628, 126628),
    (126634, 126634), (126652, 126703), (126706, 126975), (127020, 127023), (127124, 127135),
    (127151, 127152), (127168, 127168), (127184, 127184), (127222, 127231), (127406, 127461),
    (127491, 127503), (127548, 127551), (127561, 127567), (127570, 127583), (127590, 127743),
    (128728, 128731), (128749, 128751), (128765, 128767), (128887, 128890), (128986, 128991),
    (129004, 129007), (129009, 129023), (129036, 129039), (129096, 129103), (129114, 129119),
    (129160, 129167), (129198, 129199), (129202, 129279), (129620, 129631), (129646, 129647),
    (129661, 129663), (129673, 129679), (129726, 129726), (129734, 129741), (129756, 129759),
    (129769, 129775), (129785, 129791), (129939, 129939), (129995, 130031), (130042, 131071),
    (173792, 173823), (177978, 177983), (178206, 178207), (183970, 183983), (191457, 194559),
    (195102, 196607), (201547, 201551), (205744, 917759), (918000, 1114111)]

/-- `str.isprintable` of one character. -/
def isPrintable (c : Char) : Bool :=
  if c.toNat < 127 then 32 ≤ c.toNat else !inRanges unprintableRanges c.toNat

/-- The code points from 128 on that are letters, digits or numbers. -/
def wordRanges : List (ℕ × ℕ) :=
  [(170, 170), (178, 179), (181, 181), (185, 186), (188, 190), (192, 214), (216, 246), (248, 705),
    (710, 721), (736, 740), (748, 748), (750, 750), (880, 884), (886, 887), (890, 893), (895, 895),
    (902, 902), (904, 906), (908, 908), (910, 929), (931, 1013), (1015, 1153), (1162, 1327),
    (1329, 1366), (1369, 1369), (1376, 1416), (1488, 1514), (1519, 1522), (1568, 1610),
    (1632, 1641), (1646, 1647), (1649, 1747), (1749, 1749), (1765, 1766), (1774, 1788),
    (1791, 1791), (1808, 1808), (1810, 1839), (1869, 1957), (1969, 1969), (1984, 2026),
    (2036, 2037), (2042, 2042), (2048, 2069), (2074, 2074), (2084, 2084), (2088, 2088),
    (2112, 2136), (2144, 2154), (2160, 2183), (2185, 2190), (2208, 2249), (2308, 2361),
    (2365, 2365), (2384, 2384), (2392, 2401), (2406, 2415), (2417, 2432), (2437, 2444),
    (2447, 2448), (2451, 2472), (2474, 2480), (2482, 2482), (2486, 2489), (2493, 2493),
    (2510, 2510), (2524, 2525), (2527, 2529), (2534, 2545), (2548, 2553), (2556, 2556),
    (2565, 2570), (2575, 2576), (2579, 2600), (2602, 2608), (2610, 2611), (2613, 2614),
    (2616, 2617), (2649, 2652), (2654, 2654), (2662, 2671), (2674, 2676), (2693, 2701),
    (2703, 2705), (2707, 2728), (2730, 2736), (2738, 2739), (2741, 2745), (2749, 2749),
    (2768, 2768), (2784, 2785), (2790, 2799), (2809, 2809), (2821, 2828), (2831, 2832),
    (2835, 2856), (2858, 2864), (2866, 2867), (2869, 2873), (2877, 2877), (2908, 2909),
    (2911, 2913), (2918, 2927), (2929, 2935), (2947, 2947), (2949, 2954), (2958, 2960),
    (2962, 2965), (2969, 2970), (2972, 2972), (2974, 2975), (2979, 2980), (2984, 2986),
    (2990, 3001), (3024, 3024), (3046, 3058), (3077, 3084), (3086, 3088), (3090, 3112),
    (3114, 3129), (3133, 3133), (3160, 3162), (3165, 3165), (3168, 3169), (3174, 3183),
    (3192, 3198), (3200, 3200), (3205, 3212), (3214, 3216), (3218, 3240), (3242, 3251),
    (3253, 3257), (3261, 3261), (3293, 3294), (3296, 3297), (3302, 3311), (3313, 3314),
    (3332, 3340), (3342, 3344), (3346, 3386), (3389, 3389), (3406, 3406), (3412, 3414),
    (3416, 3425), (3430, 3448), (3450, 3455), (3461, 3478), (3482, 3505), (3507, 3515),
    (3517, 3517), (3520, 3526), (3558, 3567), (3585, 3632), (3634, 3635), (3648, 3654),
    (3664, 3673), (3713, 3714), (3716, 3716), (3718, 3722), (3724, 3747), (3749, 3749),
    (3751, 3760), (3762, 3763), (3773, 3773), (3776, 3780), (3782, 3782), (3792, 3801),
    (3804, 3807), (3840, 3840), (3872, 3891), (3904, 3911), (3913, 3948), (3976, 3980),
    (4096, 4138), (4159, 4169), (4176, 4181), (4186, 4189), (4193, 4193), (4197, 4198),
    (4206, 4208), (4213, 4225), (4238, 4238), (4240, 4249), (4256, 4293), (4295, 4295),
    (4301, 4301), (4304, 4346), (4348, 4680), (4682, 4685), (4688, 4694), (4696, 4696),
    (4698, 4701), (4704, 4744), (4746, 4749), (4752, 4784), (4786, 4789), (4792, 4798),
    (4800, 4800), (4802, 4805), (4808, 4822), (4824, 4880), (4882, 4885), (4888, 4954),
    (4969, 4988), (4992, 5007), (5024, 5109), (5112, 5117), (5121, 5740), (5743, 5759),
    (5761, 5786), (5792, 5866), (5870, 5880), (5888, 5905), (5919, 5937), (5952, 5969),
    (5984, 5996), (5998, 6000), (6016, 6067), (6103, 6103), (6108, 6108), (6112, 6121),
    (6128, 6137), (6160, 6169), (6176, 6264), (6272, 6276), (6279, 6312), (6314, 6314),
    (6320, 6389), (6400, 6430), (6470, 6509), (6512, 6516), (6528, 6571), (6576, 6601),
    (6608, 6618), (6656, 6678), (6688, 6740), (6784, 6793), (6800, 6809), (6823, 6823),
    (6917, 6963), (6981, 6988), (6992, 7001), (7043, 7072), (7086, 7141), (7168, 7203),
    (7232, 7241), (7245, 7293), (7296, 7304), (7312, 7354), (7357, 7359), (7401, 7404),
    (7406, 7411), (7413, 7414), (7418, 7418), (7424, 7615), (7680, 7957), (7960, 7965),
    (7968, 8005), (8008, 8013), (8016, 8023), (8025, 8025), (8027, 8027), (8029, 8029),
    (8031, 8061), (8064, 8116), (8118, 8124), (8126, 8126), (8130, 8132), (8134, 8140),
    (8144, 8147), (8150, 8155), (8160, 8172), (8178, 8180), (8182, 8188), (8304, 8305),
    (8308, 8313), (8319, 8329), (8336, 8348), (8450, 8450), (8455, 8455), (8458, 8467),
    (8469, 8469), (8473, 8477), (8484, 8484), (8486, 8486), (8488, 8488), (8490, 8493),
    (8495, 8505), (8508, 8511), (8517, 8521), (8526, 8526), (8528, 8585), (9312, 9371),
    (9450, 9471), (10102, 10131), (11264, 11492), (11499, 11502), (11506, 11507), (11517, 11517),
    (11520, 11557), (11559, 11559), (11565, 11565), (11568, 11623), (11631, 11631), (11648, 11670),
    (11680, 11686), (11688, 11694), (11696, 11702), (11704, 11710), (11712, 11718), (11720, 11726),
    (11728, 11734), (11736, 11742), (11823, 11823), (12293, 12295), (12321, 12329), (12337, 12341),
    (12344, 12348), (12353, 12438), (12445, 12447), (12449, 12538), (12540, 12543), (12549, 12591),
    (12593, 12686), (12690, 12693), (12704, 12735), (12784, 12799), (12832, 12841), (12872, 12879),
    (12881, 12895), (12928, 12937), (12977, 12991), (13312, 19903), (19968, 42124), (42192, 42237),
    (42240, 42508), (42512, 42539), (42560, 42606), (42623, 42653), (42656, 42735), (42775, 42783),
    (42786, 42888), (42891, 42954), (42960, 42961), (42963, 42963), (42965, 42969), (42994, 43009),
    (43011, 43013), (43015, 43018), (43020, 43042), (43056, 43061), (43072, 43123), (43138, 43187),
    (43216, 43225), (43250, 43255), (43259, 43259), (43261, 43262), (43264, 43301), (43312, 43334),
    (43360, 43388), (43396, 43442), (43471, 43481), (43488, 43492), (43494, 43518), (43520, 43560),
    (43584, 43586), (43588, 43595), (43600, 43609), (43616, 43638), (43642, 43642), (43646, 43695),
    (43697, 43697), (43701, 43702), (43705, 43709), (43712, 43712), (43714, 43714), (43739, 43741),
    (43744, 43754), (43762, 43764), (43777, 43782), (43785, 43790), (43793, 43798), (43808, 43814),
    (43816, 43822), (43824, 43866), (43868, 43881), (43888, 44002), (44016, 44025), (44032, 55203),
    (55216, 55238), (55243, 55291), (63744, 64109), (64112, 64217), (64256, 64262), (64275, 64279),
    (64285, 64285), (64287, 64296), (64298, 64310), (64312, 64316), (64318, 64318), (64320, 64321),
    (64323, 64324), (64326, 64433), (64467, 64829), (64848, 64911), (64914, 64967), (65008, 65019),
    (65136, 65140), (65142, 65276), (65296, 65305), (65313, 65338), (65345, 65370), (65382, 65470),
    (65474, 65479), (65482, 65487), (65490, 65495), (65498, 65500), (65536, 65547), (65549, 65574),
    (65576, 65594), (65596, 65597), (65599, 65613), (65616, 65629), (65664, 65786), (65799, 65843),
    (65856, 65912), (65930, 65931), (66176, 66204), (66208, 66256), (66273, 66299), (66304, 66339),
    (66349, 66378), (66384, 66421), (66432, 66461), (66464, 66499), (66504, 66511), (66513, 66517),
    (66560, 66717), (66720, 66729), (66736, 66771), (66776, 66811), (66816, 66855), (66864, 66915),
    (66928, 66938), (66940, 66954), (66956, 66962), (66964, 66965), (66967, 66977), (66979, 66993),
    (66995, 67001), (67003, 67004), (67072, 67382), (67392, 67413), (67424, 67431), (67456, 67461),
    (67463, 67504), (67506, 67514), (67584, 67589), (67592, 67592), (67594, 67637), (67639, 67640),
    (67644, 67644), (67647, 67669), (67672, 67702), (67705, 67742), (67751, 67759), (67808, 67826),
    (67828, 67829), (67835, 67867), (67872, 67897), (67968, 68023), (68028, 68047), (68050, 68096),
    (68112, 68115), (68117, 68119), (68121, 68149), (68160, 68168), (68192, 68222), (68224, 68255),
    (68288, 68295), (68297, 68324), (68331, 68335), (68352, 68405), (68416, 68437), (68440, 68466),
    (68472, 68497), (68521, 68527), (68608, 68680), (68736, 68786), (68800, 68850), (68858, 68899),
    (68912, 68921), (69216, 69246), (69248, 69289), (69296, 69297), (69376, 69415), (69424, 69445),
    (69457, 69460), (69488, 69505), (69552, 69579), (69600, 69622), (69635, 69687), (69714, 69743),
    (69745, 69746), (69749, 69749), (69763, 69807), (69840, 69864), (69872, 69881), (69891, 69926),
    (69942, 69951), (69956, 69956), (69959, 69959), (69968, 70002), (70006, 70006), (70019, 70066),
    (70081, 70084), (70096, 70106), (70108, 70108), (70113, 70132), (70144, 70161), (70163, 70187),
    (70207, 70208), (70272, 70278), (70280, 70280), (70282, 70285), (70287, 70301), (70303, 70312),
    (70320, 70366), (70384, 70393), (70405, 70412), (70415, 70416), (70419, 70440), (70442, 70448),
    (70450, 70451), (70453, 70457), (70461, 70461), (70480, 70480), (70493, 70497), (70656, 70708),
    (70727, 70730), (70736, 70745), (70751, 70753), (70784, 70831), (70852, 70853), (70855, 70855),
    (70864, 70873), (71040, 71086), (71128, 71131), (71168, 71215), (71236, 71236), (71248, 71257),
    (71296, 71338), (71352, 71352), (71360, 71369), (71424, 71450), (71472, 71483), (71488, 71494),
    (71680, 71723), (71840, 71922), (71935, 71942), (71945, 71945), (71948, 71955), (71957, 71958),
    (71960, 71983), (71999, 71999), (72001, 72001), (72016, 72025), (72096, 72103), (72106, 72144),
    (72161, 72161), (72163, 72163), (72192, 72192), (72203, 72242), (72250, 72250), (72272, 72272),
    (72284, 72329), (72349, 72349), (72368, 72440), (72704, 72712), (72714, 72750), (72768, 72768),
    (72784, 72812), (72818, 72847), (72960, 72966), (72968, 72969), (72971, 73008), (73030, 73030),
    (73040, 73049), (73056, 73061), (73063, 73064), (73066, 73097), (73112, 73112), (73120, 73129),
    (73440, 73458), (73474, 73474), (73476, 73488), (73490, 73523), (73552, 73561), (73648, 73648),
    (73664, 73684), (73728, 74649), (74752, 74862), (74880, 75075), (77712, 77808), (77824, 78895),
    (78913, 78918), (82944, 83526), (92160, 92728), (92736, 92766), (92768, 92777), (92784, 92862),
    (92864, 92873), (92880, 92909), (92928, 92975), (92992, 92995), (93008, 93017), (93019, 93025),
    (93027, 93047), (93053, 93071), (93760, 93846), (93952, 94026), (94032, 94032), (94099, 94111),
    (94176, 94177), (94179, 94179), (94208, 100343), (100352, 101589), (101632, 101640),
    (110576, 110579), (110581, 110587), (110589, 110590), (110592, 110882), (110898, 110898),
    (110928, 110930), (110933, 110933), (110948, 110951), (110960, 111355), (113664, 113770),
    (113776, 113788), (113792, 113800), (113808, 113817), (119488, 119507), (119520, 119539),
    (119648, 119672), (119808, 119892), (119894, 119964), (119966, 119967), (119970, 119970),
    (119973, 119974), (119977, 119980), (119982, 119993), (119995, 119995), (119997, 120003),
    (120005, 120069), (120071, 120074), (120077, 120084), (120086, 120092), (120094, 120121),
    (120123, 120126), (120128, 120132), (120134, 120134), (120138, 120144), (120146, 120485),
    (120488, 120512), (120514, 120538), (120540, 120570), (120572, 120596), (120598, 120628),
    (120630, 120654), (120656, 120686), (120688, 120712), (120714, 120744), (120746, 120770),
    (120772, 120779), (120782, 120831), (122624, 122654), (122661, 122666), (122928, 122989),
    (123136, 123180), (123191, 123197), (123200, 123209), (123214, 123214), (123536, 123565),
    (123584, 123627), (123632, 123641), (124112, 124139), (124144, 124153), (124896, 124902),
    (124904, 124907), (124909, 124910), (124912, 124926), (124928, 125124), (125127, 125135),
    (125184, 125251), (125259, 125259), (125264, 125273), (126065, 126123), (126125, 126127),
    (126129, 126132), (126209, 126253), (126255, 126269), (126464, 126467), (126469, 126495),
    (126497, 126498), (126500, 126500), (126503, 126503), (126505, 126514), (126516, 126519),
    (126521, 126521), (126523, 126523), (126530, 126530), (126535, 126535), (126537, 126537),
    (126539, 126539), (126541, 126543), (126545, 126546), (126548, 126548), (126551, 126551),
    (126553, 126553), (126555, 126555), (126557, 126557), (126559, 126559), (126561, 126562),
    (126564, 126564), (126567, 126570), (126572, 126578), (126580, 126583), (126585, 126588),
    (126590, 126590), (126592, 126601), (126603, 126619), (126625, 126627), (126629, 126633),
    (126635, 126651), (127232, 127244), (130032, 130041), (131072, 173791), (173824, 177977),
    (177984, 178205), (178208, 183969), (183984, 191456), (194560, 195101), (196608, 201546),
    (201552, 205743)]

/-- The characters that `\w` matches. -/
def isWord (c : Char) : Bool :=
  if c.toNat < 128 then c.isAlphanum || c = '_' else inRanges wordRanges c.toNat

end Blackgeorge.Data.Text
