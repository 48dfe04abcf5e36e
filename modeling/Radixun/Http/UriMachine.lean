import Radixun.Foundation.ActionMachine

/-! The state machine of `uri.rl.cc`, the compiled form of the URI grammar. A row has the edges of one
state in the order in which they are tried; edges with actions bear the label the generated code has
for them. -/
namespace Radixun.Http.UriMachine
open Radixun.Foundation ByteClass

/-- The actions of `uri.rl`; `marku` and `markh` both set `mark`. -/
inductive Action where
  | mark | saveScheme | savePort | saveUserinfo | saveHost | savePath | saveQuery | saveFragment
  deriving DecidableEq, Repr

def digit : ByteClass := [(48,57)]
def xdigit : ByteClass := digit ++ [(65,70),(97,102)]
def alpha : ByteClass := [(65,90),(97,122)]
def unreserved : ByteClass := alpha ++ digit ++ [(45,46),(95,95),(126,126)]
def subDelims : ByteClass := [(33,33),(36,36),(38,44),(59,59),(61,61)]
def regName : ByteClass := unreserved ++ subDelims
def userinfo : ByteClass := regName ++ one 58
def schemeChar : ByteClass := alpha ++ digit ++ [(43,43),(45,46)]
/-- Bytes beyond ASCII are taken along with the grammar's characters, in paths, queries and fragments. -/
def segmentNzNc : ByteClass := regName ++ [(64,64),(128,255)]
def pchar : ByteClass := segmentNzNc ++ one 58
def pathChar : ByteClass := pchar ++ one 47
def queryChar : ByteClass := pathChar ++ one 63

def st (target : Nat) (on : ByteClass) : Edge Action := ⟨on,[],target⟩
def tr38 (on : ByteClass) : Edge Action := ⟨on,[.saveUserinfo],469⟩
def tr263 (on : ByteClass) : Edge Action := ⟨on,[.saveUserinfo],522⟩
def tr461 (on : ByteClass) : Edge Action := ⟨on,[.mark],508⟩
def tr462 (on : ByteClass) : Edge Action := ⟨on,[.mark],454⟩
def tr463 (on : ByteClass) : Edge Action := ⟨on,[.mark],1⟩
def tr466 (on : ByteClass) : Edge Action := ⟨on,[.mark],457⟩
def tr467 (on : ByteClass) : Edge Action := ⟨on,[.mark,.saveQuery],453⟩
def tr468 (on : ByteClass) : Edge Action := ⟨on,[.mark],7⟩
def tr469 (on : ByteClass) : Edge Action := ⟨on,[.saveQuery],453⟩
def tr472 (on : ByteClass) : Edge Action := ⟨on,[.mark],9⟩
def tr473 (on : ByteClass) : Edge Action := ⟨on,[.mark],467⟩
def tr474 (on : ByteClass) : Edge Action := ⟨on,[.mark,.saveHost],453⟩
def tr475 (on : ByteClass) : Edge Action := ⟨on,[.mark],31⟩
def tr476 (on : ByteClass) : Edge Action := ⟨on,[.mark,.saveHost],455⟩
def tr477 (on : ByteClass) : Edge Action := ⟨on,[.mark],490⟩
def tr478 (on : ByteClass) : Edge Action := ⟨on,[.mark],504⟩
def tr479 (on : ByteClass) : Edge Action := ⟨on,[.mark],506⟩
def tr480 (on : ByteClass) : Edge Action := ⟨on,[.mark],505⟩
def tr481 (on : ByteClass) : Edge Action := ⟨on,[.mark,.saveHost],468⟩
def tr482 (on : ByteClass) : Edge Action := ⟨on,[.mark,.saveHost],456⟩
def tr483 (on : ByteClass) : Edge Action := ⟨on,[.mark,.saveUserinfo],469⟩
def tr484 (on : ByteClass) : Edge Action := ⟨on,[.mark],38⟩
def tr485 (on : ByteClass) : Edge Action := ⟨on,[.saveHost],453⟩
def tr486 (on : ByteClass) : Edge Action := ⟨on,[.saveHost],455⟩
def tr487 (on : ByteClass) : Edge Action := ⟨on,[.saveHost],461⟩
def tr488 (on : ByteClass) : Edge Action := ⟨on,[.saveHost],456⟩
def tr489 (on : ByteClass) : Edge Action := ⟨on,[.mark,.savePort],453⟩
def tr490 (on : ByteClass) : Edge Action := ⟨on,[.mark,.savePort],455⟩
def tr491 (on : ByteClass) : Edge Action := ⟨on,[.mark],462⟩
def tr492 (on : ByteClass) : Edge Action := ⟨on,[.mark,.savePort],456⟩
def tr493 (on : ByteClass) : Edge Action := ⟨on,[.savePort],453⟩
def tr494 (on : ByteClass) : Edge Action := ⟨on,[.savePort],455⟩
def tr496 (on : ByteClass) : Edge Action := ⟨on,[.savePort],456⟩
def tr499 (on : ByteClass) : Edge Action := ⟨on,[.saveHost],468⟩
def tr500 (on : ByteClass) : Edge Action := ⟨on,[.mark],489⟩
def tr501 (on : ByteClass) : Edge Action := ⟨on,[.mark],470⟩
def tr502 (on : ByteClass) : Edge Action := ⟨on,[.mark],36⟩
def tr503 (on : ByteClass) : Edge Action := ⟨on,[.mark],471⟩
def tr504 (on : ByteClass) : Edge Action := ⟨on,[.mark],485⟩
def tr505 (on : ByteClass) : Edge Action := ⟨on,[.mark],487⟩
def tr506 (on : ByteClass) : Edge Action := ⟨on,[.mark],486⟩
def tr507 (on : ByteClass) : Edge Action := ⟨on,[.mark,.saveHost],461⟩
def tr543 (on : ByteClass) : Edge Action := ⟨on,[.saveScheme],509⟩
def tr546 (on : ByteClass) : Edge Action := ⟨on,[.mark],229⟩
def tr547 (on : ByteClass) : Edge Action := ⟨on,[.mark],520⟩
def tr548 (on : ByteClass) : Edge Action := ⟨on,[.mark,.saveHost,.savePath],453⟩
def tr549 (on : ByteClass) : Edge Action := ⟨on,[.mark],253⟩
def tr550 (on : ByteClass) : Edge Action := ⟨on,[.mark,.saveHost],513⟩
def tr551 (on : ByteClass) : Edge Action := ⟨on,[.mark],543⟩
def tr552 (on : ByteClass) : Edge Action := ⟨on,[.mark],557⟩
def tr553 (on : ByteClass) : Edge Action := ⟨on,[.mark],559⟩
def tr554 (on : ByteClass) : Edge Action := ⟨on,[.mark],558⟩
def tr555 (on : ByteClass) : Edge Action := ⟨on,[.mark,.saveHost],521⟩
def tr556 (on : ByteClass) : Edge Action := ⟨on,[.mark,.saveHost,.savePath],456⟩
def tr557 (on : ByteClass) : Edge Action := ⟨on,[.mark,.saveUserinfo],522⟩
def tr558 (on : ByteClass) : Edge Action := ⟨on,[.mark],260⟩
def tr559 (on : ByteClass) : Edge Action := ⟨on,[.saveHost,.mark,.savePath],453⟩
def tr560 (on : ByteClass) : Edge Action := ⟨on,[.saveHost,.mark],513⟩
def tr561 (on : ByteClass) : Edge Action := ⟨on,[.saveHost],514⟩
def tr562 (on : ByteClass) : Edge Action := ⟨on,[.saveHost,.mark,.savePath],456⟩
def tr563 (on : ByteClass) : Edge Action := ⟨on,[.savePath],453⟩
def tr565 (on : ByteClass) : Edge Action := ⟨on,[.savePath],456⟩
def tr566 (on : ByteClass) : Edge Action := ⟨on,[.mark,.savePort,.savePath],453⟩
def tr567 (on : ByteClass) : Edge Action := ⟨on,[.mark,.savePort],513⟩
def tr568 (on : ByteClass) : Edge Action := ⟨on,[.mark],515⟩
def tr569 (on : ByteClass) : Edge Action := ⟨on,[.mark,.savePort,.savePath],456⟩
def tr570 (on : ByteClass) : Edge Action := ⟨on,[.savePort,.mark,.savePath],453⟩
def tr571 (on : ByteClass) : Edge Action := ⟨on,[.savePort,.mark],513⟩
def tr573 (on : ByteClass) : Edge Action := ⟨on,[.savePort,.mark,.savePath],456⟩
def tr576 (on : ByteClass) : Edge Action := ⟨on,[.saveHost],521⟩
def tr577 (on : ByteClass) : Edge Action := ⟨on,[.mark],542⟩
def tr578 (on : ByteClass) : Edge Action := ⟨on,[.mark],523⟩
def tr579 (on : ByteClass) : Edge Action := ⟨on,[.mark],258⟩
def tr580 (on : ByteClass) : Edge Action := ⟨on,[.mark],524⟩
def tr581 (on : ByteClass) : Edge Action := ⟨on,[.mark],538⟩
def tr582 (on : ByteClass) : Edge Action := ⟨on,[.mark],540⟩
def tr583 (on : ByteClass) : Edge Action := ⟨on,[.mark],539⟩
def tr584 (on : ByteClass) : Edge Action := ⟨on,[.mark,.saveHost],514⟩

def table : List (Nat × List (Edge Action)) := [
  (1,[st 2 xdigit]),
  (2,[st 454 xdigit]),
  (3,[st 4 xdigit]),
  (4,[st 452 xdigit]),
  (5,[st 6 xdigit]),
  (6,[st 455 xdigit]),
  (7,[st 8 xdigit]),
  (8,[st 457 xdigit]),
  (9,[st 10 [(48,52)]]),
  (10,[st 11 digit]),
  (11,[st 12 (one 46)]),
  (12,[st 13 (one 2), st 15 (one 48), st 27 (one 49), st 29 (one 50), st 28 digit]),
  (13,[st 14 [(48,52)]]),
  (14,[st 15 digit]),
  (15,[st 16 (one 46)]),
  (16,[st 17 (one 2), st 19 (one 48), st 23 (one 49), st 25 (one 50), st 24 digit]),
  (17,[st 18 [(48,52)]]),
  (18,[st 19 digit]),
  (19,[st 20 (one 46)]),
  (20,[st 21 (one 2), st 460 (one 48), st 463 (one 49), st 465 (one 50), st 464 digit]),
  (21,[st 22 [(48,52)]]),
  (22,[st 460 digit]),
  (23,[st 20 (one 46), st 24 digit]),
  (24,[st 20 (one 46), st 19 digit]),
  (25,[st 20 (one 46), st 26 (one 53), st 19 digit]),
  (26,[st 20 (one 46), st 19 [(48,53)]]),
  (27,[st 16 (one 46), st 28 digit]),
  (28,[st 16 (one 46), st 15 digit]),
  (29,[st 16 (one 46), st 30 (one 53), st 15 digit]),
  (30,[st 16 (one 46), st 15 [(48,53)]]),
  (31,[st 32 xdigit]),
  (32,[st 467 xdigit]),
  (33,[st 34 (one 37), tr38 (one 64), st 33 userinfo]),
  (34,[st 35 xdigit]),
  (35,[st 33 xdigit]),
  (36,[st 37 xdigit]),
  (37,[st 470 xdigit]),
  (38,[st 146 (one 58), st 225 (one 118), st 39 xdigit]),
  (39,[st 43 (one 58), st 40 xdigit]),
  (40,[st 43 (one 58), st 41 xdigit]),
  (41,[st 43 (one 58), st 42 xdigit]),
  (42,[st 43 (one 58)]),
  (43,[st 141 (one 58), st 44 xdigit]),
  (44,[st 48 (one 58), st 45 xdigit]),
  (45,[st 48 (one 58), st 46 xdigit]),
  (46,[st 48 (one 58), st 47 xdigit]),
  (47,[st 48 (one 58)]),
  (48,[st 136 (one 58), st 49 xdigit]),
  (49,[st 53 (one 58), st 50 xdigit]),
  (50,[st 53 (one 58), st 51 xdigit]),
  (51,[st 53 (one 58), st 52 xdigit]),
  (52,[st 53 (one 58)]),
  (53,[st 131 (one 58), st 54 xdigit]),
  (54,[st 58 (one 58), st 55 xdigit]),
  (55,[st 58 (one 58), st 56 xdigit]),
  (56,[st 58 (one 58), st 57 xdigit]),
  (57,[st 58 (one 58)]),
  (58,[st 126 (one 58), st 59 xdigit]),
  (59,[st 63 (one 58), st 60 xdigit]),
  (60,[st 63 (one 58), st 61 xdigit]),
  (61,[st 63 (one 58), st 62 xdigit]),
  (62,[st 63 (one 58)]),
  (63,[st 113 (one 58), st 64 xdigit]),
  (64,[st 68 (one 58), st 65 xdigit]),
  (65,[st 68 (one 58), st 66 xdigit]),
  (66,[st 68 (one 58), st 67 xdigit]),
  (67,[st 68 (one 58)]),
  (68,[st 69 (one 2), st 96 (one 48), st 104 (one 49), st 107 (one 50), st 111 (one 58), st 110 digit, st 112 xdigit]),
  (69,[st 70 [(48,52)]]),
  (70,[st 71 digit]),
  (71,[st 72 (one 46)]),
  (72,[st 73 (one 2), st 75 (one 48), st 92 (one 49), st 94 (one 50), st 93 digit]),
  (73,[st 74 [(48,52)]]),
  (74,[st 75 digit]),
  (75,[st 76 (one 46)]),
  (76,[st 77 (one 2), st 79 (one 48), st 88 (one 49), st 90 (one 50), st 89 digit]),
  (77,[st 78 [(48,52)]]),
  (78,[st 79 digit]),
  (79,[st 80 (one 46)]),
  (80,[st 81 (one 2), st 83 (one 48), st 84 (one 49), st 86 (one 50), st 85 digit]),
  (81,[st 82 [(48,52)]]),
  (82,[st 83 digit]),
  (83,[st 460 (one 93)]),
  (84,[st 460 (one 93), st 85 digit]),
  (85,[st 460 (one 93), st 83 digit]),
  (86,[st 87 (one 53), st 460 (one 93), st 83 digit]),
  (87,[st 460 (one 93), st 83 [(48,53)]]),
  (88,[st 80 (one 46), st 89 digit]),
  (89,[st 80 (one 46), st 79 digit]),
  (90,[st 80 (one 46), st 91 (one 53), st 79 digit]),
  (91,[st 80 (one 46), st 79 [(48,53)]]),
  (92,[st 76 (one 46), st 93 digit]),
  (93,[st 76 (one 46), st 75 digit]),
  (94,[st 76 (one 46), st 95 (one 53), st 75 digit]),
  (95,[st 76 (one 46), st 75 [(48,53)]]),
  (96,[st 72 (one 46), st 100 (one 58), st 97 xdigit]),
  (97,[st 100 (one 58), st 98 xdigit]),
  (98,[st 100 (one 58), st 99 xdigit]),
  (99,[st 100 (one 58)]),
  (100,[st 83 (one 58), st 101 xdigit]),
  (101,[st 460 (one 93), st 102 xdigit]),
  (102,[st 460 (one 93), st 103 xdigit]),
  (103,[st 460 (one 93), st 83 xdigit]),
  (104,[st 72 (one 46), st 100 (one 58), st 105 digit, st 97 xdigit]),
  (105,[st 72 (one 46), st 100 (one 58), st 106 digit, st 98 xdigit]),
  (106,[st 72 (one 46), st 100 (one 58), st 99 xdigit]),
  (107,[st 72 (one 46), st 109 (one 53), st 100 (one 58), st 108 digit, st 97 xdigit]),
  (108,[st 72 (one 46), st 100 (one 58), st 98 xdigit]),
  (109,[st 72 (one 46), st 100 (one 58), st 106 [(48,53)], st 98 xdigit]),
  (110,[st 72 (one 46), st 100 (one 58), st 108 digit, st 97 xdigit]),
  (111,[st 101 xdigit]),
  (112,[st 100 (one 58), st 97 xdigit]),
  (113,[st 69 (one 2), st 114 (one 48), st 118 (one 49), st 121 (one 50), st 124 digit, st 125 xdigit]),
  (114,[st 72 (one 46), st 111 (one 58), st 115 xdigit]),
  (115,[st 111 (one 58), st 116 xdigit]),
  (116,[st 111 (one 58), st 117 xdigit]),
  (117,[st 111 (one 58)]),
  (118,[st 72 (one 46), st 111 (one 58), st 119 digit, st 115 xdigit]),
  (119,[st 72 (one 46), st 111 (one 58), st 120 digit, st 116 xdigit]),
  (120,[st 72 (one 46), st 111 (one 58), st 117 xdigit]),
  (121,[st 72 (one 46), st 123 (one 53), st 111 (one 58), st 122 digit, st 115 xdigit]),
  (122,[st 72 (one 46), st 111 (one 58), st 116 xdigit]),
  (123,[st 72 (one 46), st 111 (one 58), st 120 [(48,53)], st 116 xdigit]),
  (124,[st 72 (one 46), st 111 (one 58), st 122 digit, st 115 xdigit]),
  (125,[st 111 (one 58), st 115 xdigit]),
  (126,[st 127 xdigit]),
  (127,[st 113 (one 58), st 128 xdigit]),
  (128,[st 113 (one 58), st 129 xdigit]),
  (129,[st 113 (one 58), st 130 xdigit]),
  (130,[st 113 (one 58)]),
  (131,[st 132 xdigit]),
  (132,[st 126 (one 58), st 133 xdigit]),
  (133,[st 126 (one 58), st 134 xdigit]),
  (134,[st 126 (one 58), st 135 xdigit]),
  (135,[st 126 (one 58)]),
  (136,[st 137 xdigit]),
  (137,[st 131 (one 58), st 138 xdigit]),
  (138,[st 131 (one 58), st 139 xdigit]),
  (139,[st 131 (one 58), st 140 xdigit]),
  (140,[st 131 (one 58)]),
  (141,[st 142 xdigit]),
  (142,[st 136 (one 58), st 143 xdigit]),
  (143,[st 136 (one 58), st 144 xdigit]),
  (144,[st 136 (one 58), st 145 xdigit]),
  (145,[st 136 (one 58)]),
  (146,[st 147 (one 58)]),
  (147,[st 69 (one 2), st 148 (one 48), st 217 (one 49), st 220 (one 50), st 460 (one 93), st 223 digit,
    st 224 xdigit]),
  (148,[st 72 (one 46), st 152 (one 58), st 460 (one 93), st 149 xdigit]),
  (149,[st 152 (one 58), st 460 (one 93), st 150 xdigit]),
  (150,[st 152 (one 58), st 460 (one 93), st 151 xdigit]),
  (151,[st 152 (one 58), st 460 (one 93)]),
  (152,[st 69 (one 2), st 153 (one 48), st 209 (one 49), st 212 (one 50), st 215 digit, st 216 xdigit]),
  (153,[st 72 (one 46), st 157 (one 58), st 460 (one 93), st 154 xdigit]),
  (154,[st 157 (one 58), st 460 (one 93), st 155 xdigit]),
  (155,[st 157 (one 58), st 460 (one 93), st 156 xdigit]),
  (156,[st 157 (one 58), st 460 (one 93)]),
  (157,[st 69 (one 2), st 158 (one 48), st 201 (one 49), st 204 (one 50), st 207 digit, st 208 xdigit]),
  (158,[st 72 (one 46), st 162 (one 58), st 460 (one 93), st 159 xdigit]),
  (159,[st 162 (one 58), st 460 (one 93), st 160 xdigit]),
  (160,[st 162 (one 58), st 460 (one 93), st 161 xdigit]),
  (161,[st 162 (one 58), st 460 (one 93)]),
  (162,[st 69 (one 2), st 163 (one 48), st 193 (one 49), st 196 (one 50), st 199 digit, st 200 xdigit]),
  (163,[st 72 (one 46), st 167 (one 58), st 460 (one 93), st 164 xdigit]),
  (164,[st 167 (one 58), st 460 (one 93), st 165 xdigit]),
  (165,[st 167 (one 58), st 460 (one 93), st 166 xdigit]),
  (166,[st 167 (one 58), st 460 (one 93)]),
  (167,[st 69 (one 2), st 168 (one 48), st 185 (one 49), st 188 (one 50), st 191 digit, st 192 xdigit]),
  (168,[st 72 (one 46), st 172 (one 58), st 460 (one 93), st 169 xdigit]),
  (169,[st 172 (one 58), st 460 (one 93), st 170 xdigit]),
  (170,[st 172 (one 58), st 460 (one 93), st 171 xdigit]),
  (171,[st 172 (one 58), st 460 (one 93)]),
  (172,[st 69 (one 2), st 173 (one 48), st 177 (one 49), st 180 (one 50), st 183 digit, st 184 xdigit]),
  (173,[st 72 (one 46), st 111 (one 58), st 460 (one 93), st 174 xdigit]),
  (174,[st 111 (one 58), st 460 (one 93), st 175 xdigit]),
  (175,[st 111 (one 58), st 460 (one 93), st 176 xdigit]),
  (176,[st 111 (one 58), st 460 (one 93)]),
  (177,[st 72 (one 46), st 111 (one 58), st 460 (one 93), st 178 digit, st 174 xdigit]),
  (178,[st 72 (one 46), st 111 (one 58), st 460 (one 93), st 179 digit, st 175 xdigit]),
  (179,[st 72 (one 46), st 111 (one 58), st 460 (one 93), st 176 xdigit]),
  (180,[st 72 (one 46), st 182 (one 53), st 111 (one 58), st 460 (one 93), st 181 digit, st 174 xdigit]),
  (181,[st 72 (one 46), st 111 (one 58), st 460 (one 93), st 175 xdigit]),
  (182,[st 72 (one 46), st 111 (one 58), st 460 (one 93), st 179 [(48,53)], st 175 xdigit]),
  (183,[st 72 (one 46), st 111 (one 58), st 460 (one 93), st 181 digit, st 174 xdigit]),
  (184,[st 111 (one 58), st 460 (one 93), st 174 xdigit]),
  (185,[st 72 (one 46), st 172 (one 58), st 460 (one 93), st 186 digit, st 169 xdigit]),
  (186,[st 72 (one 46), st 172 (one 58), st 460 (one 93), st 187 digit, st 170 xdigit]),
  (187,[st 72 (one 46), st 172 (one 58), st 460 (one 93), st 171 xdigit]),
  (188,[st 72 (one 46), st 190 (one 53), st 172 (one 58), st 460 (one 93), st 189 digit, st 169 xdigit]),
  (189,[st 72 (one 46), st 172 (one 58), st 460 (one 93), st 170 xdigit]),
  (190,[st 72 (one 46), st 172 (one 58), st 460 (one 93), st 187 [(48,53)], st 170 xdigit]),
  (191,[st 72 (one 46), st 172 (one 58), st 460 (one 93), st 189 digit, st 169 xdigit]),
  (192,[st 172 (one 58), st 460 (one 93), st 169 xdigit]),
  (193,[st 72 (one 46), st 167 (one 58), st 460 (one 93), st 194 digit, st 164 xdigit]),
  (194,[st 72 (one 46), st 167 (one 58), st 460 (one 93), st 195 digit, st 165 xdigit]),
  (195,[st 72 (one 46), st 167 (one 58), st 460 (one 93), st 166 xdigit]),
  (196,[st 72 (one 46), st 198 (one 53), st 167 (one 58), st 460 (one 93), st 197 digit, st 164 xdigit]),
  (197,[st 72 (one 46), st 167 (one 58), st 460 (one 93), st 165 xdigit]),
  (198,[st 72 (one 46), st 167 (one 58), st 460 (one 93), st 195 [(48,53)], st 165 xdigit]),
  (199,[st 72 (one 46), st 167 (one 58), st 460 (one 93), st 197 digit, st 164 xdigit]),
  (200,[st 167 (one 58), st 460 (one 93), st 164 xdigit]),
  (201,[st 72 (one 46), st 162 (one 58), st 460 (one 93), st 202 digit, st 159 xdigit]),
  (202,[st 72 (one 46), st 162 (one 58), st 460 (one 93), st 203 digit, st 160 xdigit]),
  (203,[st 72 (one 46), st 162 (one 58), st 460 (one 93), st 161 xdigit]),
  (204,[st 72 (one 46), st 206 (one 53), st 162 (one 58), st 460 (one 93), st 205 digit, st 159 xdigit]),
  (205,[st 72 (one 46), st 162 (one 58), st 460 (one 93), st 160 xdigit]),
  (206,[st 72 (one 46), st 162 (one 58), st 460 (one 93), st 203 [(48,53)], st 160 xdigit]),
  (207,[st 72 (one 46), st 162 (one 58), st 460 (one 93), st 205 digit, st 159 xdigit]),
  (208,[st 162 (one 58), st 460 (one 93), st 159 xdigit]),
  (209,[st 72 (one 46), st 157 (one 58), st 460 (one 93), st 210 digit, st 154 xdigit]),
  (210,[st 72 (one 46), st 157 (one 58), st 460 (one 93), st 211 digit, st 155 xdigit]),
  (211,[st 72 (one 46), st 157 (one 58), st 460 (one 93), st 156 xdigit]),
  (212,[st 72 (one 46), st 214 (one 53), st 157 (one 58), st 460 (one 93), st 213 digit, st 154 xdigit]),
  (213,[st 72 (one 46), st 157 (one 58), st 460 (one 93), st 155 xdigit]),
  (214,[st 72 (one 46), st 157 (one 58), st 460 (one 93), st 211 [(48,53)], st 155 xdigit]),
  (215,[st 72 (one 46), st 157 (one 58), st 460 (one 93), st 213 digit, st 154 xdigit]),
  (216,[st 157 (one 58), st 460 (one 93), st 154 xdigit]),
  (217,[st 72 (one 46), st 152 (one 58), st 460 (one 93), st 218 digit, st 149 xdigit]),
  (218,[st 72 (one 46), st 152 (one 58), st 460 (one 93), st 219 digit, st 150 xdigit]),
  (219,[st 72 (one 46), st 152 (one 58), st 460 (one 93), st 151 xdigit]),
  (220,[st 72 (one 46), st 222 (one 53), st 152 (one 58), st 460 (one 93), st 221 digit, st 149 xdigit]),
  (221,[st 72 (one 46), st 152 (one 58), st 460 (one 93), st 150 xdigit]),
  (222,[st 72 (one 46), st 152 (one 58), st 460 (one 93), st 219 [(48,53)], st 150 xdigit]),
  (223,[st 72 (one 46), st 152 (one 58), st 460 (one 93), st 221 digit, st 149 xdigit]),
  (224,[st 152 (one 58), st 460 (one 93), st 149 xdigit]),
  (225,[st 226 xdigit]),
  (226,[st 227 (one 46), st 226 xdigit]),
  (227,[st 228 userinfo]),
  (228,[st 460 (one 93), st 228 userinfo]),
  (229,[st 230 [(48,52)]]),
  (230,[st 231 digit]),
  (231,[st 232 (one 46)]),
  (232,[st 233 (one 2), st 235 (one 48), st 249 (one 49), st 251 (one 50), st 250 digit]),
  (233,[st 234 [(48,52)]]),
  (234,[st 235 digit]),
  (235,[st 236 (one 46)]),
  (236,[st 237 (one 2), st 239 (one 48), st 245 (one 49), st 247 (one 50), st 246 digit]),
  (237,[st 238 [(48,52)]]),
  (238,[st 239 digit]),
  (239,[st 240 (one 46)]),
  (240,[st 241 (one 2), st 512 (one 48), st 516 (one 49), st 518 (one 50), st 517 digit]),
  (241,[st 242 [(48,52)]]),
  (242,[st 512 digit]),
  (243,[st 244 xdigit]),
  (244,[st 513 xdigit]),
  (245,[st 240 (one 46), st 246 digit]),
  (246,[st 240 (one 46), st 239 digit]),
  (247,[st 240 (one 46), st 248 (one 53), st 239 digit]),
  (248,[st 240 (one 46), st 239 [(48,53)]]),
  (249,[st 236 (one 46), st 250 digit]),
  (250,[st 236 (one 46), st 235 digit]),
  (251,[st 236 (one 46), st 252 (one 53), st 235 digit]),
  (252,[st 236 (one 46), st 235 [(48,53)]]),
  (253,[st 254 xdigit]),
  (254,[st 520 xdigit]),
  (255,[st 256 (one 37), tr263 (one 64), st 255 userinfo]),
  (256,[st 257 xdigit]),
  (257,[st 255 xdigit]),
  (258,[st 259 xdigit]),
  (259,[st 523 xdigit]),
  (260,[st 368 (one 58), st 447 (one 118), st 261 xdigit]),
  (261,[st 265 (one 58), st 262 xdigit]),
  (262,[st 265 (one 58), st 263 xdigit]),
  (263,[st 265 (one 58), st 264 xdigit]),
  (264,[st 265 (one 58)]),
  (265,[st 363 (one 58), st 266 xdigit]),
  (266,[st 270 (one 58), st 267 xdigit]),
  (267,[st 270 (one 58), st 268 xdigit]),
  (268,[st 270 (one 58), st 269 xdigit]),
  (269,[st 270 (one 58)]),
  (270,[st 358 (one 58), st 271 xdigit]),
  (271,[st 275 (one 58), st 272 xdigit]),
  (272,[st 275 (one 58), st 273 xdigit]),
  (273,[st 275 (one 58), st 274 xdigit]),
  (274,[st 275 (one 58)]),
  (275,[st 353 (one 58), st 276 xdigit]),
  (276,[st 280 (one 58), st 277 xdigit]),
  (277,[st 280 (one 58), st 278 xdigit]),
  (278,[st 280 (one 58), st 279 xdigit]),
  (279,[st 280 (one 58)]),
  (280,[st 348 (one 58), st 281 xdigit]),
  (281,[st 285 (one 58), st 282 xdigit]),
  (282,[st 285 (one 58), st 283 xdigit]),
  (283,[st 285 (one 58), st 284 xdigit]),
  (284,[st 285 (one 58)]),
  (285,[st 335 (one 58), st 286 xdigit]),
  (286,[st 290 (one 58), st 287 xdigit]),
  (287,[st 290 (one 58), st 288 xdigit]),
  (288,[st 290 (one 58), st 289 xdigit]),
  (289,[st 290 (one 58)]),
  (290,[st 291 (one 2), st 318 (one 48), st 326 (one 49), st 329 (one 50), st 333 (one 58), st 332 digit,
    st 334 xdigit]),
  (291,[st 292 [(48,52)]]),
  (292,[st 293 digit]),
  (293,[st 294 (one 46)]),
  (294,[st 295 (one 2), st 297 (one 48), st 314 (one 49), st 316 (one 50), st 315 digit]),
  (295,[st 296 [(48,52)]]),
  (296,[st 297 digit]),
  (297,[st 298 (one 46)]),
  (298,[st 299 (one 2), st 301 (one 48), st 310 (one 49), st 312 (one 50), st 311 digit]),
  (299,[st 300 [(48,52)]]),
  (300,[st 301 digit]),
  (301,[st 302 (one 46)]),
  (302,[st 303 (one 2), st 305 (one 48), st 306 (one 49), st 308 (one 50), st 307 digit]),
  (303,[st 304 [(48,52)]]),
  (304,[st 305 digit]),
  (305,[st 512 (one 93)]),
  (306,[st 512 (one 93), st 307 digit]),
  (307,[st 512 (one 93), st 305 digit]),
  (308,[st 309 (one 53), st 512 (one 93), st 305 digit]),
  (309,[st 512 (one 93), st 305 [(48,53)]]),
  (310,[st 302 (one 46), st 311 digit]),
  (311,[st 302 (one 46), st 301 digit]),
  (312,[st 302 (one 46), st 313 (one 53), st 301 digit]),
  (313,[st 302 (one 46), st 301 [(48,53)]]),
  (314,[st 298 (one 46), st 315 digit]),
  (315,[st 298 (one 46), st 297 digit]),
  (316,[st 298 (one 46), st 317 (one 53), st 297 digit]),
  (317,[st 298 (one 46), st 297 [(48,53)]]),
  (318,[st 294 (one 46), st 322 (one 58), st 319 xdigit]),
  (319,[st 322 (one 58), st 320 xdigit]),
  (320,[st 322 (one 58), st 321 xdigit]),
  (321,[st 322 (one 58)]),
  (322,[st 305 (one 58), st 323 xdigit]),
  (323,[st 512 (one 93), st 324 xdigit]),
  (324,[st 512 (one 93), st 325 xdigit]),
  (325,[st 512 (one 93), st 305 xdigit]),
  (326,[st 294 (one 46), st 322 (one 58), st 327 digit, st 319 xdigit]),
  (327,[st 294 (one 46), st 322 (one 58), st 328 digit, st 320 xdigit]),
  (328,[st 294 (one 46), st 322 (one 58), st 321 xdigit]),
  (329,[st 294 (one 46), st 331 (one 53), st 322 (one 58), st 330 digit, st 319 xdigit]),
  (330,[st 294 (one 46), st 322 (one 58), st 320 xdigit]),
  (331,[st 294 (one 46), st 322 (one 58), st 328 [(48,53)], st 320 xdigit]),
  (332,[st 294 (one 46), st 322 (one 58), st 330 digit, st 319 xdigit]),
  (333,[st 323 xdigit]),
  (334,[st 322 (one 58), st 319 xdigit]),
  (335,[st 291 (one 2), st 336 (one 48), st 340 (one 49), st 343 (one 50), st 346 digit, st 347 xdigit]),
  (336,[st 294 (one 46), st 333 (one 58), st 337 xdigit]),
  (337,[st 333 (one 58), st 338 xdigit]),
  (338,[st 333 (one 58), st 339 xdigit]),
  (339,[st 333 (one 58)]),
  (340,[st 294 (one 46), st 333 (one 58), st 341 digit, st 337 xdigit]),
  (341,[st 294 (one 46), st 333 (one 58), st 342 digit, st 338 xdigit]),
  (342,[st 294 (one 46), st 333 (one 58), st 339 xdigit]),
  (343,[st 294 (one 46), st 345 (one 53), st 333 (one 58), st 344 digit, st 337 xdigit]),
  (344,[st 294 (one 46), st 333 (one 58), st 338 xdigit]),
  (345,[st 294 (one 46), st 333 (one 58), st 342 [(48,53)], st 338 xdigit]),
  (346,[st 294 (one 46), st 333 (one 58), st 344 digit, st 337 xdigit]),
  (347,[st 333 (one 58), st 337 xdigit]),
  (348,[st 349 xdigit]),
  (349,[st 335 (one 58), st 350 xdigit]),
  (350,[st 335 (one 58), st 351 xdigit]),
  (351,[st 335 (one 58), st 352 xdigit]),
  (352,[st 335 (one 58)]),
  (353,[st 354 xdigit]),
  (354,[st 348 (one 58), st 355 xdigit]),
  (355,[st 348 (one 58), st 356 xdigit]),
  (356,[st 348 (one 58), st 357 xdigit]),
  (357,[st 348 (one 58)]),
  (358,[st 359 xdigit]),
  (359,[st 353 (one 58), st 360 xdigit]),
  (360,[st 353 (one 58), st 361 xdigit]),
  (361,[st 353 (one 58), st 362 xdigit]),
  (362,[st 353 (one 58)]),
  (363,[st 364 xdigit]),
  (364,[st 358 (one 58), st 365 xdigit]),
  (365,[st 358 (one 58), st 366 xdigit]),
  (366,[st 358 (one 58), st 367 xdigit]),
  (367,[st 358 (one 58)]),
  (368,[st 369 (one 58)]),
  (369,[st 291 (one 2), st 370 (one 48), st 439 (one 49), st 442 (one 50), st 512 (one 93), st 445 digit,
    st 446 xdigit]),
  (370,[st 294 (one 46), st 374 (one 58), st 512 (one 93), st 371 xdigit]),
  (371,[st 374 (one 58), st 512 (one 93), st 372 xdigit]),
  (372,[st 374 (one 58), st 512 (one 93), st 373 xdigit]),
  (373,[st 374 (one 58), st 512 (one 93)]),
  (374,[st 291 (one 2), st 375 (one 48), st 431 (one 49), st 434 (one 50), st 437 digit, st 438 xdigit]),
  (375,[st 294 (one 46), st 379 (one 58), st 512 (one 93), st 376 xdigit]),
  (376,[st 379 (one 58), st 512 (one 93), st 377 xdigit]),
  (377,[st 379 (one 58), st 512 (one 93), st 378 xdigit]),
  (378,[st 379 (one 58), st 512 (one 93)]),
  (379,[st 291 (one 2), st 380 (one 48), st 423 (one 49), st 426 (one 50), st 429 digit, st 430 xdigit]),
  (380,[st 294 (one 46), st 384 (one 58), st 512 (one 93), st 381 xdigit]),
  (381,[st 384 (one 58), st 512 (one 93), st 382 xdigit]),
  (382,[st 384 (one 58), st 512 (one 93), st 383 xdigit]),
  (383,[st 384 (one 58), st 512 (one 93)]),
  (384,[st 291 (one 2), st 385 (one 48), st 415 (one 49), st 418 (one 50), st 421 digit, st 422 xdigit]),
  (385,[st 294 (one 46), st 389 (one 58), st 512 (one 93), st 386 xdigit]),
  (386,[st 389 (one 58), st 512 (one 93), st 387 xdigit]),
  (387,[st 389 (one 58), st 512 (one 93), st 388 xdigit]),
  (388,[st 389 (one 58), st 512 (one 93)]),
  (389,[st 291 (one 2), st 390 (one 48), st 407 (one 49), st 410 (one 50), st 413 digit, st 414 xdigit]),
  (390,[st 294 (one 46), st 394 (one 58), st 512 (one 93), st 391 xdigit]),
  (391,[st 394 (one 58), st 512 (one 93), st 392 xdigit]),
  (392,[st 394 (one 58), st 512 (one 93), st 393 xdigit]),
  (393,[st 394 (one 58), st 512 (one 93)]),
  (394,[st 291 (one 2), st 395 (one 48), st 399 (one 49), st 402 (one 50), st 405 digit, st 406 xdigit]),
  (395,[st 294 (one 46), st 333 (one 58), st 512 (one 93), st 396 xdigit]),
  (396,[st 333 (one 58), st 512 (one 93), st 397 xdigit]),
  (397,[st 333 (one 58), st 512 (one 93), st 398 xdigit]),
  (398,[st 333 (one 58), st 512 (one 93)]),
  (399,[st 294 (one 46), st 333 (one 58), st 512 (one 93), st 400 digit, st 396 xdigit]),
  (400,[st 294 (one 46), st 333 (one 58), st 512 (one 93), st 401 digit, st 397 xdigit]),
  (401,[st 294 (one 46), st 333 (one 58), st 512 (one 93), st 398 xdigit]),
  (402,[st 294 (one 46), st 404 (one 53), st 333 (one 58), st 512 (one 93), st 403 digit, st 396 xdigit]),
  (403,[st 294 (one 46), st 333 (one 58), st 512 (one 93), st 397 xdigit]),
  (404,[st 294 (one 46), st 333 (one 58), st 512 (one 93), st 401 [(48,53)], st 397 xdigit]),
  (405,[st 294 (one 46), st 333 (one 58), st 512 (one 93), st 403 digit, st 396 xdigit]),
  (406,[st 333 (one 58), st 512 (one 93), st 396 xdigit]),
  (407,[st 294 (one 46), st 394 (one 58), st 512 (one 93), st 408 digit, st 391 xdigit]),
  (408,[st 294 (one 46), st 394 (one 58), st 512 (one 93), st 409 digit, st 392 xdigit]),
  (409,[st 294 (one 46), st 394 (one 58), st 512 (one 93), st 393 xdigit]),
  (410,[st 294 (one 46), st 412 (one 53), st 394 (one 58), st 512 (one 93), st 411 digit, st 391 xdigit]),
  (411,[st 294 (one 46), st 394 (one 58), st 512 (one 93), st 392 xdigit]),
  (412,[st 294 (one 46), st 394 (one 58), st 512 (one 93), st 409 [(48,53)], st 392 xdigit]),
  (413,[st 294 (one 46), st 394 (one 58), st 512 (one 93), st 411 digit, st 391 xdigit]),
  (414,[st 394 (one 58), st 512 (one 93), st 391 xdigit]),
  (415,[st 294 (one 46), st 389 (one 58), st 512 (one 93), st 416 digit, st 386 xdigit]),
  (416,[st 294 (one 46), st 389 (one 58), st 512 (one 93), st 417 digit, st 387 xdigit]),
  (417,[st 294 (one 46), st 389 (one 58), st 512 (one 93), st 388 xdigit]),
  (418,[st 294 (one 46), st 420 (one 53), st 389 (one 58), st 512 (one 93), st 419 digit, st 386 xdigit]),
  (419,[st 294 (one 46), st 389 (one 58), st 512 (one 93), st 387 xdigit]),
  (420,[st 294 (one 46), st 389 (one 58), st 512 (one 93), st 417 [(48,53)], st 387 xdigit]),
  (421,[st 294 (one 46), st 389 (one 58), st 512 (one 93), st 419 digit, st 386 xdigit]),
  (422,[st 389 (one 58), st 512 (one 93), st 386 xdigit]),
  (423,[st 294 (one 46), st 384 (one 58), st 512 (one 93), st 424 digit, st 381 xdigit]),
  (424,[st 294 (one 46), st 384 (one 58), st 512 (one 93), st 425 digit, st 382 xdigit]),
  (425,[st 294 (one 46), st 384 (one 58), st 512 (one 93), st 383 xdigit]),
  (426,[st 294 (one 46), st 428 (one 53), st 384 (one 58), st 512 (one 93), st 427 digit, st 381 xdigit]),
  (427,[st 294 (one 46), st 384 (one 58), st 512 (one 93), st 382 xdigit]),
  (428,[st 294 (one 46), st 384 (one 58), st 512 (one 93), st 425 [(48,53)], st 382 xdigit]),
  (429,[st 294 (one 46), st 384 (one 58), st 512 (one 93), st 427 digit, st 381 xdigit]),
  (430,[st 384 (one 58), st 512 (one 93), st 381 xdigit]),
  (431,[st 294 (one 46), st 379 (one 58), st 512 (one 93), st 432 digit, st 376 xdigit]),
  (432,[st 294 (one 46), st 379 (one 58), st 512 (one 93), st 433 digit, st 377 xdigit]),
  (433,[st 294 (one 46), st 379 (one 58), st 512 (one 93), st 378 xdigit]),
  (434,[st 294 (one 46), st 436 (one 53), st 379 (one 58), st 512 (one 93), st 435 digit, st 376 xdigit]),
  (435,[st 294 (one 46), st 379 (one 58), st 512 (one 93), st 377 xdigit]),
  (436,[st 294 (one 46), st 379 (one 58), st 512 (one 93), st 433 [(48,53)], st 377 xdigit]),
  (437,[st 294 (one 46), st 379 (one 58), st 512 (one 93), st 435 digit, st 376 xdigit]),
  (438,[st 379 (one 58), st 512 (one 93), st 376 xdigit]),
  (439,[st 294 (one 46), st 374 (one 58), st 512 (one 93), st 440 digit, st 371 xdigit]),
  (440,[st 294 (one 46), st 374 (one 58), st 512 (one 93), st 441 digit, st 372 xdigit]),
  (441,[st 294 (one 46), st 374 (one 58), st 512 (one 93), st 373 xdigit]),
  (442,[st 294 (one 46), st 444 (one 53), st 374 (one 58), st 512 (one 93), st 443 digit, st 371 xdigit]),
  (443,[st 294 (one 46), st 374 (one 58), st 512 (one 93), st 372 xdigit]),
  (444,[st 294 (one 46), st 374 (one 58), st 512 (one 93), st 441 [(48,53)], st 372 xdigit]),
  (445,[st 294 (one 46), st 374 (one 58), st 512 (one 93), st 443 digit, st 371 xdigit]),
  (446,[st 374 (one 58), st 512 (one 93), st 371 xdigit]),
  (447,[st 448 xdigit]),
  (448,[st 449 (one 46), st 448 xdigit]),
  (449,[st 450 userinfo]),
  (450,[st 512 (one 93), st 450 userinfo]),
  (451,[st 453 (one 35), st 3 (one 37), st 458 (one 47), st 456 (one 63), tr461 alpha, st 452 segmentNzNc]),
  (452,[st 453 (one 35), st 3 (one 37), st 455 (one 47), st 456 (one 63), st 452 segmentNzNc]),
  (453,[tr463 (one 37), tr462 queryChar]),
  (454,[st 1 (one 37), st 454 queryChar]),
  (455,[st 453 (one 35), st 5 (one 37), st 456 (one 63), st 455 pathChar]),
  (456,[tr467 (one 35), tr468 (one 37), tr466 queryChar]),
  (457,[tr469 (one 35), st 7 (one 37), st 457 queryChar]),
  (458,[st 453 (one 35), st 5 (one 37), st 459 (one 47), st 456 (one 63), st 455 pchar]),
  (459,[tr472 (one 2), tr474 (one 35), tr475 (one 37), tr476 (one 47), tr477 (one 48), tr478 (one 49),
    tr479 (one 50), tr481 (one 58), tr482 (one 63), tr483 (one 64), tr484 (one 91), tr480 digit, tr473 regName]),
  (460,[tr485 (one 35), tr486 (one 47), tr487 (one 58), tr488 (one 63)]),
  (461,[tr489 (one 35), tr490 (one 47), tr492 (one 63), tr491 digit]),
  (462,[tr493 (one 35), tr494 (one 47), tr496 (one 63), st 462 digit]),
  (463,[tr485 (one 35), tr486 (one 47), tr487 (one 58), tr488 (one 63), st 464 digit]),
  (464,[tr485 (one 35), tr486 (one 47), tr487 (one 58), tr488 (one 63), st 460 digit]),
  (465,[tr485 (one 35), tr486 (one 47), st 466 (one 53), tr487 (one 58), tr488 (one 63), st 460 digit]),
  (466,[tr485 (one 35), tr486 (one 47), tr487 (one 58), tr488 (one 63), st 460 [(48,53)]]),
  (467,[tr485 (one 35), st 31 (one 37), tr486 (one 47), tr499 (one 58), tr488 (one 63), tr38 (one 64),
    st 467 regName]),
  (468,[tr489 (one 35), st 34 (one 37), tr490 (one 47), tr492 (one 63), tr38 (one 64), tr500 digit, st 33 userinfo]),
  (469,[tr472 (one 2), tr474 (one 35), tr502 (one 37), tr476 (one 47), tr503 (one 48), tr504 (one 49),
    tr505 (one 50), tr507 (one 58), tr482 (one 63), tr484 (one 91), tr506 digit, tr501 regName]),
  (470,[tr485 (one 35), st 36 (one 37), tr486 (one 47), tr487 (one 58), tr488 (one 63), st 470 regName]),
  (471,[tr485 (one 35), st 36 (one 37), st 472 (one 46), tr486 (one 47), tr487 (one 58), tr488 (one 63),
    st 470 regName]),
  (472,[st 13 (one 2), tr485 (one 35), st 36 (one 37), tr486 (one 47), st 473 (one 48), st 481 (one 49),
    st 483 (one 50), tr487 (one 58), tr488 (one 63), st 482 digit, st 470 regName]),
  (473,[tr485 (one 35), st 36 (one 37), st 474 (one 46), tr486 (one 47), tr487 (one 58), tr488 (one 63),
    st 470 regName]),
  (474,[st 17 (one 2), tr485 (one 35), st 36 (one 37), tr486 (one 47), st 475 (one 48), st 477 (one 49),
    st 479 (one 50), tr487 (one 58), tr488 (one 63), st 478 digit, st 470 regName]),
  (475,[tr485 (one 35), st 36 (one 37), st 476 (one 46), tr486 (one 47), tr487 (one 58), tr488 (one 63),
    st 470 regName]),
  (476,[st 21 (one 2), tr485 (one 35), st 36 (one 37), tr486 (one 47), tr487 (one 58), tr488 (one 63),
    st 470 regName]),
  (477,[tr485 (one 35), st 36 (one 37), st 476 (one 46), tr486 (one 47), tr487 (one 58), tr488 (one 63),
    st 478 digit, st 470 regName]),
  (478,[tr485 (one 35), st 36 (one 37), st 476 (one 46), tr486 (one 47), tr487 (one 58), tr488 (one 63),
    st 475 digit, st 470 regName]),
  (479,[tr485 (one 35), st 36 (one 37), st 476 (one 46), tr486 (one 47), st 480 (one 53), tr487 (one 58),
    tr488 (one 63), st 475 digit, st 470 regName]),
  (480,[tr485 (one 35), st 36 (one 37), st 476 (one 46), tr486 (one 47), tr487 (one 58), tr488 (one 63),
    st 475 [(48,53)], st 470 regName]),
  (481,[tr485 (one 35), st 36 (one 37), st 474 (one 46), tr486 (one 47), tr487 (one 58), tr488 (one 63),
    st 482 digit, st 470 regName]),
  (482,[tr485 (one 35), st 36 (one 37), st 474 (one 46), tr486 (one 47), tr487 (one 58), tr488 (one 63),
    st 473 digit, st 470 regName]),
  (483,[tr485 (one 35), st 36 (one 37), st 474 (one 46), tr486 (one 47), st 484 (one 53), tr487 (one 58),
    tr488 (one 63), st 473 digit, st 470 regName]),
  (484,[tr485 (one 35), st 36 (one 37), st 474 (one 46), tr486 (one 47), tr487 (one 58), tr488 (one 63),
    st 473 [(48,53)], st 470 regName]),
  (485,[tr485 (one 35), st 36 (one 37), st 472 (one 46), tr486 (one 47), tr487 (one 58), tr488 (one 63),
    st 486 digit, st 470 regName]),
  (486,[tr485 (one 35), st 36 (one 37), st 472 (one 46), tr486 (one 47), tr487 (one 58), tr488 (one 63),
    st 471 digit, st 470 regName]),
  (487,[tr485 (one 35), st 36 (one 37), st 472 (one 46), tr486 (one 47), st 488 (one 53), tr487 (one 58),
    tr488 (one 63), st 471 digit, st 470 regName]),
  (488,[tr485 (one 35), st 36 (one 37), st 472 (one 46), tr486 (one 47), tr487 (one 58), tr488 (one 63),
    st 471 [(48,53)], st 470 regName]),
  (489,[tr493 (one 35), st 34 (one 37), tr494 (one 47), tr496 (one 63), tr38 (one 64), st 489 digit, st 33 userinfo]),
  (490,[tr485 (one 35), st 31 (one 37), st 491 (one 46), tr486 (one 47), tr499 (one 58), tr488 (one 63),
    tr38 (one 64), st 467 regName]),
  (491,[st 13 (one 2), tr485 (one 35), st 31 (one 37), tr486 (one 47), st 492 (one 48), st 500 (one 49),
    st 502 (one 50), tr499 (one 58), tr488 (one 63), tr38 (one 64), st 501 digit, st 467 regName]),
  (492,[tr485 (one 35), st 31 (one 37), st 493 (one 46), tr486 (one 47), tr499 (one 58), tr488 (one 63),
    tr38 (one 64), st 467 regName]),
  (493,[st 17 (one 2), tr485 (one 35), st 31 (one 37), tr486 (one 47), st 494 (one 48), st 496 (one 49),
    st 498 (one 50), tr499 (one 58), tr488 (one 63), tr38 (one 64), st 497 digit, st 467 regName]),
  (494,[tr485 (one 35), st 31 (one 37), st 495 (one 46), tr486 (one 47), tr499 (one 58), tr488 (one 63),
    tr38 (one 64), st 467 regName]),
  (495,[st 21 (one 2), tr485 (one 35), st 31 (one 37), tr486 (one 47), tr499 (one 58), tr488 (one 63), tr38 (one 64),
    st 467 regName]),
  (496,[tr485 (one 35), st 31 (one 37), st 495 (one 46), tr486 (one 47), tr499 (one 58), tr488 (one 63),
    tr38 (one 64), st 497 digit, st 467 regName]),
  (497,[tr485 (one 35), st 31 (one 37), st 495 (one 46), tr486 (one 47), tr499 (one 58), tr488 (one 63),
    tr38 (one 64), st 494 digit, st 467 regName]),
  (498,[tr485 (one 35), st 31 (one 37), st 495 (one 46), tr486 (one 47), st 499 (one 53), tr499 (one 58),
    tr488 (one 63), tr38 (one 64), st 494 digit, st 467 regName]),
  (499,[tr485 (one 35), st 31 (one 37), st 495 (one 46), tr486 (one 47), tr499 (one 58), tr488 (one 63),
    tr38 (one 64), st 494 [(48,53)], st 467 regName]),
  (500,[tr485 (one 35), st 31 (one 37), st 493 (one 46), tr486 (one 47), tr499 (one 58), tr488 (one 63),
    tr38 (one 64), st 501 digit, st 467 regName]),
  (501,[tr485 (one 35), st 31 (one 37), st 493 (one 46), tr486 (one 47), tr499 (one 58), tr488 (one 63),
    tr38 (one 64), st 492 digit, st 467 regName]),
  (502,[tr485 (one 35), st 31 (one 37), st 493 (one 46), tr486 (one 47), st 503 (one 53), tr499 (one 58),
    tr488 (one 63), tr38 (one 64), st 492 digit, st 467 regName]),
  (503,[tr485 (one 35), st 31 (one 37), st 493 (one 46), tr486 (one 47), tr499 (one 58), tr488 (one 63),
    tr38 (one 64), st 492 [(48,53)], st 467 regName]),
  (504,[tr485 (one 35), st 31 (one 37), st 491 (one 46), tr486 (one 47), tr499 (one 58), tr488 (one 63),
    tr38 (one 64), st 505 digit, st 467 regName]),
  (505,[tr485 (one 35), st 31 (one 37), st 491 (one 46), tr486 (one 47), tr499 (one 58), tr488 (one 63),
    tr38 (one 64), st 490 digit, st 467 regName]),
  (506,[tr485 (one 35), st 31 (one 37), st 491 (one 46), tr486 (one 47), st 507 (one 53), tr499 (one 58),
    tr488 (one 63), tr38 (one 64), st 490 digit, st 467 regName]),
  (507,[tr485 (one 35), st 31 (one 37), st 491 (one 46), tr486 (one 47), tr499 (one 58), tr488 (one 63),
    tr38 (one 64), st 490 [(48,53)], st 467 regName]),
  (508,[st 453 (one 35), st 3 (one 37), st 455 (one 47), tr543 (one 58), st 456 (one 63), st 508 schemeChar,
    st 452 segmentNzNc]),
  (509,[st 453 (one 35), st 5 (one 37), st 510 (one 47), st 456 (one 63), st 455 pchar]),
  (510,[st 453 (one 35), st 5 (one 37), st 511 (one 47), st 456 (one 63), st 455 pchar]),
  (511,[tr546 (one 2), tr548 (one 35), tr549 (one 37), tr550 (one 47), tr551 (one 48), tr552 (one 49),
    tr553 (one 50), tr555 (one 58), tr556 (one 63), tr557 (one 64), tr558 (one 91), tr554 digit, tr547 regName]),
  (512,[tr559 (one 35), tr560 (one 47), tr561 (one 58), tr562 (one 63)]),
  (513,[tr563 (one 35), st 243 (one 37), tr565 (one 63), st 513 pathChar]),
  (514,[tr566 (one 35), tr567 (one 47), tr569 (one 63), tr568 digit]),
  (515,[tr570 (one 35), tr571 (one 47), tr573 (one 63), st 515 digit]),
  (516,[tr559 (one 35), tr560 (one 47), tr561 (one 58), tr562 (one 63), st 517 digit]),
  (517,[tr559 (one 35), tr560 (one 47), tr561 (one 58), tr562 (one 63), st 512 digit]),
  (518,[tr559 (one 35), tr560 (one 47), st 519 (one 53), tr561 (one 58), tr562 (one 63), st 512 digit]),
  (519,[tr559 (one 35), tr560 (one 47), tr561 (one 58), tr562 (one 63), st 512 [(48,53)]]),
  (520,[tr559 (one 35), st 253 (one 37), tr560 (one 47), tr576 (one 58), tr562 (one 63), tr263 (one 64),
    st 520 regName]),
  (521,[tr566 (one 35), st 256 (one 37), tr567 (one 47), tr569 (one 63), tr263 (one 64), tr577 digit,
    st 255 userinfo]),
  (522,[tr546 (one 2), tr548 (one 35), tr579 (one 37), tr550 (one 47), tr580 (one 48), tr581 (one 49),
    tr582 (one 50), tr584 (one 58), tr556 (one 63), tr558 (one 91), tr583 digit, tr578 regName]),
  (523,[tr559 (one 35), st 258 (one 37), tr560 (one 47), tr561 (one 58), tr562 (one 63), st 523 regName]),
  (524,[tr559 (one 35), st 258 (one 37), st 525 (one 46), tr560 (one 47), tr561 (one 58), tr562 (one 63),
    st 523 regName]),
  (525,[st 233 (one 2), tr559 (one 35), st 258 (one 37), tr560 (one 47), st 526 (one 48), st 534 (one 49),
    st 536 (one 50), tr561 (one 58), tr562 (one 63), st 535 digit, st 523 regName]),
  (526,[tr559 (one 35), st 258 (one 37), st 527 (one 46), tr560 (one 47), tr561 (one 58), tr562 (one 63),
    st 523 regName]),
  (527,[st 237 (one 2), tr559 (one 35), st 258 (one 37), tr560 (one 47), st 528 (one 48), st 530 (one 49),
    st 532 (one 50), tr561 (one 58), tr562 (one 63), st 531 digit, st 523 regName]),
  (528,[tr559 (one 35), st 258 (one 37), st 529 (one 46), tr560 (one 47), tr561 (one 58), tr562 (one 63),
    st 523 regName]),
  (529,[st 241 (one 2), tr559 (one 35), st 258 (one 37), tr560 (one 47), tr561 (one 58), tr562 (one 63),
    st 523 regName]),
  (530,[tr559 (one 35), st 258 (one 37), st 529 (one 46), tr560 (one 47), tr561 (one 58), tr562 (one 63),
    st 531 digit, st 523 regName]),
  (531,[tr559 (one 35), st 258 (one 37), st 529 (one 46), tr560 (one 47), tr561 (one 58), tr562 (one 63),
    st 528 digit, st 523 regName]),
  (532,[tr559 (one 35), st 258 (one 37), st 529 (one 46), tr560 (one 47), st 533 (one 53), tr561 (one 58),
    tr562 (one 63), st 528 digit, st 523 regName]),
  (533,[tr559 (one 35), st 258 (one 37), st 529 (one 46), tr560 (one 47), tr561 (one 58), tr562 (one 63),
    st 528 [(48,53)], st 523 regName]),
  (534,[tr559 (one 35), st 258 (one 37), st 527 (one 46), tr560 (one 47), tr561 (one 58), tr562 (one 63),
    st 535 digit, st 523 regName]),
  (535,[tr559 (one 35), st 258 (one 37), st 527 (one 46), tr560 (one 47), tr561 (one 58), tr562 (one 63),
    st 526 digit, st 523 regName]),
  (536,[tr559 (one 35), st 258 (one 37), st 527 (one 46), tr560 (one 47), st 537 (one 53), tr561 (one 58),
    tr562 (one 63), st 526 digit, st 523 regName]),
  (537,[tr559 (one 35), st 258 (one 37), st 527 (one 46), tr560 (one 47), tr561 (one 58), tr562 (one 63),
    st 526 [(48,53)], st 523 regName]),
  (538,[tr559 (one 35), st 258 (one 37), st 525 (one 46), tr560 (one 47), tr561 (one 58), tr562 (one 63),
    st 539 digit, st 523 regName]),
  (539,[tr559 (one 35), st 258 (one 37), st 525 (one 46), tr560 (one 47), tr561 (one 58), tr562 (one 63),
    st 524 digit, st 523 regName]),
  (540,[tr559 (one 35), st 258 (one 37), st 525 (one 46), tr560 (one 47), st 541 (one 53), tr561 (one 58),
    tr562 (one 63), st 524 digit, st 523 regName]),
  (541,[tr559 (one 35), st 258 (one 37), st 525 (one 46), tr560 (one 47), tr561 (one 58), tr562 (one 63),
    st 524 [(48,53)], st 523 regName]),
  (542,[tr570 (one 35), st 256 (one 37), tr571 (one 47), tr573 (one 63), tr263 (one 64), st 542 digit,
    st 255 userinfo]),
  (543,[tr559 (one 35), st 253 (one 37), st 544 (one 46), tr560 (one 47), tr576 (one 58), tr562 (one 63),
    tr263 (one 64), st 520 regName]),
  (544,[st 233 (one 2), tr559 (one 35), st 253 (one 37), tr560 (one 47), st 545 (one 48), st 553 (one 49),
    st 555 (one 50), tr576 (one 58), tr562 (one 63), tr263 (one 64), st 554 digit, st 520 regName]),
  (545,[tr559 (one 35), st 253 (one 37), st 546 (one 46), tr560 (one 47), tr576 (one 58), tr562 (one 63),
    tr263 (one 64), st 520 regName]),
  (546,[st 237 (one 2), tr559 (one 35), st 253 (one 37), tr560 (one 47), st 547 (one 48), st 549 (one 49),
    st 551 (one 50), tr576 (one 58), tr562 (one 63), tr263 (one 64), st 550 digit, st 520 regName]),
  (547,[tr559 (one 35), st 253 (one 37), st 548 (one 46), tr560 (one 47), tr576 (one 58), tr562 (one 63),
    tr263 (one 64), st 520 regName]),
  (548,[st 241 (one 2), tr559 (one 35), st 253 (one 37), tr560 (one 47), tr576 (one 58), tr562 (one 63),
    tr263 (one 64), st 520 regName]),
  (549,[tr559 (one 35), st 253 (one 37), st 548 (one 46), tr560 (one 47), tr576 (one 58), tr562 (one 63),
    tr263 (one 64), st 550 digit, st 520 regName]),
  (550,[tr559 (one 35), st 253 (one 37), st 548 (one 46), tr560 (one 47), tr576 (one 58), tr562 (one 63),
    tr263 (one 64), st 547 digit, st 520 regName]),
  (551,[tr559 (one 35), st 253 (one 37), st 548 (one 46), tr560 (one 47), st 552 (one 53), tr576 (one 58),
    tr562 (one 63), tr263 (one 64), st 547 digit, st 520 regName]),
  (552,[tr559 (one 35), st 253 (one 37), st 548 (one 46), tr560 (one 47), tr576 (one 58), tr562 (one 63),
    tr263 (one 64), st 547 [(48,53)], st 520 regName]),
  (553,[tr559 (one 35), st 253 (one 37), st 546 (one 46), tr560 (one 47), tr576 (one 58), tr562 (one 63),
    tr263 (one 64), st 554 digit, st 520 regName]),
  (554,[tr559 (one 35), st 253 (one 37), st 546 (one 46), tr560 (one 47), tr576 (one 58), tr562 (one 63),
    tr263 (one 64), st 545 digit, st 520 regName]),
  (555,[tr559 (one 35), st 253 (one 37), st 546 (one 46), tr560 (one 47), st 556 (one 53), tr576 (one 58),
    tr562 (one 63), tr263 (one 64), st 545 digit, st 520 regName]),
  (556,[tr559 (one 35), st 253 (one 37), st 546 (one 46), tr560 (one 47), tr576 (one 58), tr562 (one 63),
    tr263 (one 64), st 545 [(48,53)], st 520 regName]),
  (557,[tr559 (one 35), st 253 (one 37), st 544 (one 46), tr560 (one 47), tr576 (one 58), tr562 (one 63),
    tr263 (one 64), st 558 digit, st 520 regName]),
  (558,[tr559 (one 35), st 253 (one 37), st 544 (one 46), tr560 (one 47), tr576 (one 58), tr562 (one 63),
    tr263 (one 64), st 543 digit, st 520 regName]),
  (559,[tr559 (one 35), st 253 (one 37), st 544 (one 46), tr560 (one 47), st 560 (one 53), tr576 (one 58),
    tr562 (one 63), tr263 (one 64), st 543 digit, st 520 regName]),
  (560,[tr559 (one 35), st 253 (one 37), st 544 (one 46), tr560 (one 47), tr576 (one 58), tr562 (one 63),
    tr263 (one 64), st 543 [(48,53)], st 520 regName])]

def uriMachine : ActionMachine Action := ⟨451,table,fun _ => false⟩

/-- The actions at the end of the text, by ranges of states. -/
def eofTable : List (ByteClass × List Action) := [
  ([(453,453)],[.mark,.saveFragment]),
  ([(454,454)],[.saveFragment]),
  ([(456,456)],[.mark,.saveQuery]),
  ([(457,457)],[.saveQuery]),
  ([(459,459),(469,469)],[.mark,.saveHost]),
  ([(460,460),(463,467),(470,488),(490,507)],[.saveHost]),
  ([(461,461),(468,468)],[.mark,.savePort]),
  ([(462,462),(489,489)],[.savePort]),
  ([(511,511),(522,522)],[.mark,.saveHost,.savePath]),
  ([(512,512),(516,520),(523,541),(543,560)],[.saveHost,.mark,.savePath]),
  ([(513,513)],[.savePath]),
  ([(514,514),(521,521)],[.mark,.savePort,.savePath]),
  ([(515,515),(542,542)],[.savePort,.mark,.savePath])]

def eofActions (cs : Nat) : List Action :=
  ((eofTable.find? fun r => r.1.any fun s => s.1 ≤ cs && cs ≤ s.2).map (·.2)).getD []

end Radixun.Http.UriMachine
