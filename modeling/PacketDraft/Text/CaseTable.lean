import PacketDraft.Text.ClassTable

/-!
# Case mappings of letters

The data behind lower, title and upper case: runs of code points that move by a fixed distance, the
letters whose title or upper case is more than one character, the code points that have a case at
all, and those that are passed over in a search for a letter with a case.
-/

namespace PacketDraft.Text

/-- Every `step`-th code point from `first` to `last` maps to the one `shift` further on. -/
structure CaseRun where
  first : Nat
  last : Nat
  step : Nat
  shift : Int
  deriving DecidableEq, Repr

/-- The code point that a run maps `n` to, when `n` belongs to the run. -/
def CaseRun.image? (r : CaseRun) (n : Nat) : Option Nat :=
  if r.first ≤ n ∧ n ≤ r.last ∧ (n - r.first) % r.step = 0 then some ((n : Int) + r.shift).toNat
  else none

/-- Letters with a lower case of one character. -/
def lowerRuns : List CaseRun :=
  [⟨65,90,1,32⟩,⟨192,214,1,32⟩,⟨216,222,1,32⟩,⟨256,302,2,1⟩,⟨306,310,2,1⟩,⟨313,327,2,1⟩,
    ⟨330,374,2,1⟩,⟨376,376,1,-121⟩,⟨377,381,2,1⟩,⟨385,385,1,210⟩,⟨386,388,2,1⟩,⟨390,390,1,206⟩,
    ⟨391,391,1,1⟩,⟨393,394,1,205⟩,⟨395,395,1,1⟩,⟨398,398,1,79⟩,⟨399,399,1,202⟩,⟨400,400,1,203⟩,
    ⟨401,401,1,1⟩,⟨403,403,1,205⟩,⟨404,404,1,207⟩,⟨406,406,1,211⟩,⟨407,407,1,209⟩,⟨408,408,1,1⟩,
    ⟨412,412,1,211⟩,⟨413,413,1,213⟩,⟨415,415,1,214⟩,⟨416,420,2,1⟩,⟨422,422,1,218⟩,⟨423,423,1,1⟩,
    ⟨425,425,1,218⟩,⟨428,428,1,1⟩,⟨430,430,1,218⟩,⟨431,431,1,1⟩,⟨433,434,1,217⟩,⟨435,437,2,1⟩,
    ⟨439,439,1,219⟩,⟨440,440,1,1⟩,⟨444,444,1,1⟩,⟨452,452,1,2⟩,⟨453,453,1,1⟩,⟨455,455,1,2⟩,
    ⟨456,456,1,1⟩,⟨458,458,1,2⟩,⟨459,475,2,1⟩,⟨478,494,2,1⟩,⟨497,497,1,2⟩,⟨498,500,2,1⟩,
    ⟨502,502,1,-97⟩,⟨503,503,1,-56⟩,⟨504,542,2,1⟩,⟨544,544,1,-130⟩,⟨546,562,2,1⟩,⟨570,570,1,10795⟩,
    ⟨571,571,1,1⟩,⟨573,573,1,-163⟩,⟨574,574,1,10792⟩,⟨577,577,1,1⟩,⟨579,579,1,-195⟩,⟨580,580,1,69⟩,
    ⟨581,581,1,71⟩,⟨582,590,2,1⟩,⟨880,882,2,1⟩,⟨886,886,1,1⟩,⟨895,895,1,116⟩,⟨902,902,1,38⟩,
    ⟨904,906,1,37⟩,⟨908,908,1,64⟩,⟨910,911,1,63⟩,⟨913,929,1,32⟩,⟨931,939,1,32⟩,⟨975,975,1,8⟩,
    ⟨984,1006,2,1⟩,⟨1012,1012,1,-60⟩,⟨1015,1015,1,1⟩,⟨1017,1017,1,-7⟩,⟨1018,1018,1,1⟩,
    ⟨1021,1023,1,-130⟩,⟨1024,1039,1,80⟩,⟨1040,1071,1,32⟩,⟨1120,1152,2,1⟩,⟨1162,1214,2,1⟩,
    ⟨1216,1216,1,15⟩,⟨1217,1229,2,1⟩,⟨1232,1326,2,1⟩,⟨1329,1366,1,48⟩,⟨4256,4293,1,7264⟩,
    ⟨4295,4295,1,7264⟩,⟨4301,4301,1,7264⟩,⟨5024,5103,1,38864⟩,⟨5104,5109,1,8⟩,⟨7312,7354,1,-3008⟩,
    ⟨7357,7359,1,-3008⟩,⟨7680,7828,2,1⟩,⟨7838,7838,1,-7615⟩,⟨7840,7934,2,1⟩,⟨7944,7951,1,-8⟩,
    ⟨7960,7965,1,-8⟩,⟨7976,7983,1,-8⟩,⟨7992,7999,1,-8⟩,⟨8008,8013,1,-8⟩,⟨8025,8031,2,-8⟩,
    ⟨8040,8047,1,-8⟩,⟨8072,8079,1,-8⟩,⟨8088,8095,1,-8⟩,⟨8104,8111,1,-8⟩,⟨8120,8121,1,-8⟩,
    ⟨8122,8123,1,-74⟩,⟨8124,8124,1,-9⟩,⟨8136,8139,1,-86⟩,⟨8140,8140,1,-9⟩,⟨8152,8153,1,-8⟩,
    ⟨8154,8155,1,-100⟩,⟨8168,8169,1,-8⟩,⟨8170,8171,1,-112⟩,⟨8172,8172,1,-7⟩,⟨8184,8185,1,-128⟩,
    ⟨8186,8187,1,-126⟩,⟨8188,8188,1,-9⟩,⟨8486,8486,1,-7517⟩,⟨8490,8490,1,-8383⟩,⟨8491,8491,1,-8262⟩,
    ⟨8498,8498,1,28⟩,⟨8544,8559,1,16⟩,⟨8579,8579,1,1⟩,⟨9398,9423,1,26⟩,⟨11264,11311,1,48⟩,
    ⟨11360,11360,1,1⟩,⟨11362,11362,1,-10743⟩,⟨11363,11363,1,-3814⟩,⟨11364,11364,1,-10727⟩,
    ⟨11367,11371,2,1⟩,⟨11373,11373,1,-10780⟩,⟨11374,11374,1,-10749⟩,⟨11375,11375,1,-10783⟩,
    ⟨11376,11376,1,-10782⟩,⟨11378,11378,1,1⟩,⟨11381,11381,1,1⟩,⟨11390,11391,1,-10815⟩,
    ⟨11392,11490,2,1⟩,⟨11499,11501,2,1⟩,⟨11506,11506,1,1⟩,⟨42560,42604,2,1⟩,⟨42624,42650,2,1⟩,
    ⟨42786,42798,2,1⟩,⟨42802,42862,2,1⟩,⟨42873,42875,2,1⟩,⟨42877,42877,1,-35332⟩,⟨42878,42886,2,1⟩,
    ⟨42891,42891,1,1⟩,⟨42893,42893,1,-42280⟩,⟨42896,42898,2,1⟩,⟨42902,42920,2,1⟩,
    ⟨42922,42922,1,-42308⟩,⟨42923,42923,1,-42319⟩,⟨42924,42924,1,-42315⟩,⟨42925,42925,1,-42305⟩,
    ⟨42926,42926,1,-42308⟩,⟨42928,42928,1,-42258⟩,⟨42929,42929,1,-42282⟩,⟨42930,42930,1,-42261⟩,
    ⟨42931,42931,1,928⟩,⟨42932,42946,2,1⟩,⟨42948,42948,1,-48⟩,⟨42949,42949,1,-42307⟩,
    ⟨42950,42950,1,-35384⟩,⟨42951,42953,2,1⟩,⟨42960,42960,1,1⟩,⟨42966,42968,2,1⟩,⟨42997,42997,1,1⟩,
    ⟨65313,65338,1,32⟩,⟨66560,66599,1,40⟩,⟨66736,66771,1,40⟩,⟨66928,66938,1,39⟩,⟨66940,66954,1,39⟩,
    ⟨66956,66962,1,39⟩,⟨66964,66965,1,39⟩,⟨68736,68786,1,64⟩,⟨71840,71871,1,32⟩,⟨93760,93791,1,32⟩,
    ⟨125184,125217,1,34⟩]

/-- The way back along a run. -/
def CaseRun.back (r : CaseRun) : CaseRun :=
  ⟨(r.first + r.shift).toNat, (r.last + r.shift).toNat, r.step, -r.shift⟩

/-- Letters with a title case of one character. All but the first ones go back to where their lower
case comes from. -/
def titleRuns : List CaseRun :=
  [⟨97,122,1,-32⟩,⟨181,181,1,743⟩,⟨223,223,1,0⟩,⟨305,305,1,-232⟩,⟨383,383,1,-300⟩,⟨452,452,1,1⟩,
    ⟨454,454,1,-1⟩,⟨455,455,1,1⟩,⟨457,457,1,-1⟩,⟨458,458,1,1⟩,⟨460,460,1,-1⟩,⟨497,497,1,1⟩,
    ⟨499,499,1,-1⟩,⟨837,837,1,84⟩,⟨962,962,1,-31⟩,⟨976,976,1,-62⟩,⟨977,977,1,-57⟩,⟨981,981,1,-47⟩,
    ⟨982,982,1,-54⟩,⟨1008,1008,1,-86⟩,⟨1009,1009,1,-80⟩,⟨1013,1013,1,-96⟩,⟨4304,4346,1,0⟩,
    ⟨4349,4351,1,0⟩,⟨7296,7296,1,-6254⟩,⟨7297,7297,1,-6253⟩,⟨7298,7298,1,-6244⟩,⟨7299,7300,1,-6242⟩,
    ⟨7301,7301,1,-6243⟩,⟨7302,7302,1,-6236⟩,⟨7303,7303,1,-6181⟩,⟨7304,7304,1,35266⟩,
    ⟨7835,7835,1,-59⟩,⟨8126,8126,1,-7205⟩]
    ++ (lowerRuns.map CaseRun.back).filter (128 ≤ ·.first)

/-- Letters with a title case of several characters. -/
def titleExpansions : List (Nat × List Nat) :=
  [(223,[83,115]),(329,[700,78]),(496,[74,780]),(912,[921,776,769]),(944,[933,776,769]),
    (1415,[1333,1410]),(7830,[72,817]),(7831,[84,776]),(7832,[87,778]),(7833,[89,778]),
    (7834,[65,702]),(8016,[933,787]),(8018,[933,787,768]),(8020,[933,787,769]),(8022,[933,787,834]),
    (8114,[8122,837]),(8116,[902,837]),(8118,[913,834]),(8119,[913,834,837]),(8130,[8138,837]),
    (8132,[905,837]),(8134,[919,834]),(8135,[919,834,837]),(8146,[921,776,768]),
    (8147,[921,776,769]),(8150,[921,834]),(8151,[921,776,834]),(8162,[933,776,768]),
    (8163,[933,776,769]),(8164,[929,787]),(8166,[933,834]),(8167,[933,776,834]),(8178,[8186,837]),
    (8180,[911,837]),(8182,[937,834]),(8183,[937,834,837]),(64256,[70,102]),(64257,[70,105]),
    (64258,[70,108]),(64259,[70,102,105]),(64260,[70,102,108]),(64261,[83,116]),(64262,[83,116]),
    (64275,[1348,1398]),(64276,[1348,1381]),(64277,[1348,1387]),(64278,[1358,1398]),
    (64279,[1348,1389])]

/-- Title case letters whose upper case is another character. -/
def capitalRuns : List CaseRun :=
  [⟨453, 459, 3, -1⟩, ⟨498, 498, 1, -1⟩, ⟨4304, 4346, 1, 3008⟩, ⟨4349, 4351, 1, 3008⟩]

/-- Title case letters with an iota beside them that becomes a letter of its own. -/
def iotaRuns : List CaseRun :=
  [⟨8072, 8079, 1, -128⟩, ⟨8088, 8095, 1, -112⟩, ⟨8104, 8111, 1, -64⟩, ⟨8124, 8124, 1, -7211⟩,
    ⟨8140, 8140, 1, -7221⟩, ⟨8188, 8188, 1, -7251⟩]

/-- Where membership among the letters that have a case changes, from code point 0 (not a member)
upwards. -/
def casedBounds : List Nat :=
  placesFrom 0 [65,26,6,26,47,1,10,1,4,1,5,23,1,31,1,195,1,4,4,208,1,36,7,2,30,5,96,1,42,4,2,2,2,4,
    1,1,6,1,1,3,1,1,1,20,1,83,1,139,8,166,1,38,9,41,2839,38,1,1,5,1,2,43,2,3,672,86,2,6,2178,9,7,43,
    2,3,64,192,64,278,2,6,2,38,2,6,2,8,1,1,1,1,1,1,1,31,2,53,1,7,1,1,3,3,1,7,3,4,2,6,4,13,5,3,1,7,
    116,1,13,1,16,13,101,1,4,1,2,10,1,1,3,5,6,1,1,1,1,1,1,4,1,6,4,1,2,4,5,5,4,1,17,32,3,2,817,52,
    1814,229,6,4,3,2,12,38,1,1,5,1,30994,46,18,30,132,102,3,4,1,59,5,2,1,1,1,5,27,2,1,3,821,43,1,13,
    7,80,20288,7,12,5,1033,26,6,26,1189,80,96,36,4,36,116,11,1,15,1,7,1,2,1,11,1,15,1,7,1,2,451,1,2,
    3,1,42,1,9,1221,51,13,51,2989,64,21856,64,25984,85,1,71,1,2,2,1,2,2,2,4,1,12,1,1,1,7,1,65,1,4,2,
    8,1,7,1,28,1,4,1,5,1,1,3,7,1,340,2,25,1,25,1,31,1,25,1,31,1,25,1,31,1,25,1,31,1,25,1,8,1844,10,
    1,20,2529,68,2028,26,6,26,6,26]

/-- Where membership among the characters that do not part a word into two changes: marks, modifier
letters, format characters, and the points and quotes inside words. -/
def ignorableBounds : List Nat :=
  placesFrom 0 [39,1,6,1,11,1,35,1,1,1,71,1,4,1,1,1,4,1,2,2,503,192,4,2,4,1,9,2,1,1,251,7,207,1,5,1,
    49,45,1,1,1,2,1,2,1,1,44,1,11,6,10,11,1,1,35,1,10,21,16,1,101,8,1,10,1,4,33,1,1,1,30,27,91,11,
    58,11,4,1,2,1,24,24,43,3,44,1,7,2,6,8,41,58,55,1,1,1,4,8,4,1,3,7,10,2,13,1,15,1,58,1,4,4,8,1,20,
    2,26,1,2,2,57,1,4,2,4,2,2,3,3,1,30,2,3,1,11,2,57,1,4,5,1,2,4,1,20,2,22,6,1,1,58,1,2,1,1,4,8,1,7,
    2,11,2,30,1,61,1,12,1,50,1,3,1,55,1,1,3,5,3,1,4,7,2,11,2,29,1,58,1,2,1,6,1,5,2,20,2,28,2,57,2,4,
    4,8,1,20,2,29,1,72,1,7,3,1,1,90,1,2,7,11,9,98,1,2,9,9,1,1,6,74,2,27,1,1,1,1,1,55,14,1,5,1,2,5,
    11,1,36,9,1,102,4,1,6,1,2,2,2,25,2,4,3,16,4,13,1,2,2,6,1,15,1,94,1,608,3,946,3,29,2,30,2,30,2,
    64,2,1,7,8,1,2,11,3,1,5,1,45,5,51,1,65,2,34,1,118,3,4,2,9,1,6,3,219,2,2,1,58,1,1,7,1,1,1,1,2,8,
    6,10,2,1,39,1,8,31,49,4,48,1,1,5,1,1,5,1,40,9,12,2,32,4,2,2,1,3,56,1,1,2,3,1,1,3,58,8,2,2,64,6,
    82,3,1,13,1,7,4,1,6,1,3,2,50,63,13,1,34,101,445,1,1,3,11,3,13,3,13,3,13,2,12,5,8,2,10,1,2,1,2,5,
    49,5,1,10,1,1,13,1,16,13,51,33,2955,2,113,3,125,1,15,1,96,32,47,1,469,1,36,4,3,5,5,1,93,6,93,3,
    28438,1,1250,6,270,1,98,4,1,10,1,1,28,4,80,2,14,34,78,1,23,3,103,3,3,2,8,1,3,1,4,1,25,2,5,1,151,
    2,26,18,13,1,38,8,25,11,46,3,48,1,2,4,2,2,17,1,21,2,66,6,2,2,2,2,12,1,8,1,35,1,11,1,51,1,1,3,2,
    2,5,2,1,1,27,1,14,2,5,2,1,1,100,5,9,3,121,1,2,1,4,1,20272,1,147,17,573,16,3,1,12,16,34,1,2,1,
    169,1,7,1,6,1,11,1,35,1,1,1,47,1,45,2,67,1,21,3,513,1,226,1,149,5,1029,6,1,42,1,9,582,3,1,2,5,4,
    40,3,4,1,165,2,573,4,387,2,153,11,49,4,123,1,54,15,41,1,2,2,10,3,49,4,2,2,2,1,4,1,10,1,50,3,36,
    5,1,8,62,1,12,2,52,9,10,4,2,1,95,3,2,1,1,2,6,1,160,1,3,8,21,2,57,2,3,1,37,7,3,5,195,8,2,3,1,1,
    23,1,84,6,1,1,4,2,1,2,238,4,6,2,1,2,27,2,85,8,2,1,1,2,106,1,1,1,2,6,1,1,101,3,2,4,1,5,259,9,1,2,
    256,2,1,1,4,1,144,4,2,2,4,1,32,10,40,6,2,4,8,1,9,6,2,3,46,13,1,2,406,7,1,6,1,1,82,22,2,7,1,2,1,
    2,122,6,3,1,1,2,1,7,1,1,72,2,3,1,1,1,347,2,5435,9,14007,5,59,7,9,4,1035,1,63,17,64,2,1,2,16395,
    4,1,7,1,2,3230,2,1,4,4700,46,2,23,544,3,9,16,2,7,30,4,148,3,1979,55,4,50,8,1,14,1,22,5,1,15,
    1360,7,1,17,2,7,1,2,1,5,261,14,368,1,61,4,1504,7,109,8,2735,5,789505,1,30,96,128,240]

end PacketDraft.Text
