import Radixun.Foundation.ActionMachine

/-! The state machine of `http11_parser.rl.cc`, the compiled form of the request grammar. A row has the
edges of one state in the order in which they are tried; edges with actions bear the label the
generated code has for them. -/
namespace Radixun.Http.RequestMachine
open Radixun.Foundation ByteClass

/-- The actions of `http11_parser.rl`. -/
inductive Action where
  | mark | startField | writeField | writeValue | requestMethod | requestUri | fragment | startQuery
  | queryString | httpVersion | requestPath | xml | json | done
  deriving DecidableEq, Repr

def digit : ByteClass := [(48,57)]
def xdigit : ByteClass := digit ++ [(65,70),(97,102)]
def alpha : ByteClass := [(65,90),(97,122)]
/-- The characters of a method name. -/
def method : ByteClass := [(65,90)] ++ digit
def unreserved : ByteClass := alpha ++ digit ++ [(45,46),(95,95),(126,126)]
def subDelims : ByteClass := [(33,33),(36,36),(38,44),(59,59),(61,61)]
def regName : ByteClass := unreserved ++ subDelims
def userinfo : ByteClass := regName ++ one 58
def segmentNzNc : ByteClass := regName ++ one 64
def pchar : ByteClass := regName ++ [(58,58),(64,64),(128,255)]
def pathChar : ByteClass := pchar ++ one 47
def queryChar : ByteClass := pathChar ++ one 63
def schemeChar : ByteClass := alpha ++ digit ++ [(43,43),(45,46)]
def xmlName : ByteClass := alpha ++ digit ++ [(45,46)]
/-- A character of a header name; the compiled machine also takes control characters for one. -/
def nameChar : ByteClass :=
  [(1,8),(10,31),(33,33),(35,39),(42,43),(45,46)] ++ digit ++ [(65,90),(94,122),(124,124),(126,126)]
def any : ByteClass := [(0,255)]
/-- Accepted when `parser->uri_relaxed`. -/
def moreDelims (uriRelaxed : Bool) : ByteClass := if uriRelaxed then [(94,94),(123,123),(125,125)] else []

def st (target : Nat) (on : ByteClass) : Edge Action := ⟨on,[],target⟩
def tr0 (on : ByteClass) : Edge Action := ⟨on,[.mark],2⟩
def tr2 (on : ByteClass) : Edge Action := ⟨on,[.mark],194⟩
def tr3 (on : ByteClass) : Edge Action := ⟨on,[.mark],198⟩
def tr4 (on : ByteClass) : Edge Action := ⟨on,[.requestMethod],3⟩
def tr6 (on : ByteClass) : Edge Action := ⟨on,[.mark,.requestPath,.requestUri],4⟩
def tr7 (on : ByteClass) : Edge Action := ⟨on,[.mark],19⟩
def tr8 (on : ByteClass) : Edge Action := ⟨on,[.mark,.requestPath,.requestUri],20⟩
def tr9 (on : ByteClass) : Edge Action := ⟨on,[.mark],24⟩
def tr10 (on : ByteClass) : Edge Action := ⟨on,[.mark],33⟩
def tr11 (on : ByteClass) : Edge Action := ⟨on,[.mark,.requestPath],29⟩
def tr12 (on : ByteClass) : Edge Action := ⟨on,[.mark],173⟩
def tr13 (on : ByteClass) : Edge Action := ⟨on,[.mark],5⟩
def tr21 (on : ByteClass) : Edge Action := ⟨on,[.httpVersion],13⟩
def tr22 (on : ByteClass) : Edge Action := ⟨on,[.httpVersion],17⟩
def tr23 (on : ByteClass) : Edge Action := ⟨on,[.startField],14⟩
def tr24 (on : ByteClass) : Edge Action := ⟨on,[.startField,.done],348⟩
def tr25 (on : ByteClass) : Edge Action := ⟨on,[.startField],18⟩
def tr27 (on : ByteClass) : Edge Action := ⟨on,[.writeField],15⟩
def tr28 (on : ByteClass) : Edge Action := ⟨on,[.mark],16⟩
def tr29 (on : ByteClass) : Edge Action := ⟨on,[.mark],15⟩
def tr30 (on : ByteClass) : Edge Action := ⟨on,[.mark,.writeValue],13⟩
def tr31 (on : ByteClass) : Edge Action := ⟨on,[.mark,.writeValue],17⟩
def tr33 (on : ByteClass) : Edge Action := ⟨on,[.writeValue],13⟩
def tr34 (on : ByteClass) : Edge Action := ⟨on,[.writeValue],17⟩
def tr36 (on : ByteClass) : Edge Action := ⟨on,[.done],348⟩
def tr37 (on : ByteClass) : Edge Action := ⟨on,[.requestPath,.requestUri],4⟩
def tr39 (on : ByteClass) : Edge Action := ⟨on,[.requestPath,.requestUri],20⟩
def tr42 (on : ByteClass) : Edge Action := ⟨on,[.requestPath],29⟩
def tr43 (on : ByteClass) : Edge Action := ⟨on,[.mark],21⟩
def tr44 (on : ByteClass) : Edge Action := ⟨on,[.mark,.fragment],4⟩
def tr45 (on : ByteClass) : Edge Action := ⟨on,[.mark],22⟩
def tr47 (on : ByteClass) : Edge Action := ⟨on,[.fragment],4⟩
def tr53 (on : ByteClass) : Edge Action := ⟨on,[.startQuery],30⟩
def tr54 (on : ByteClass) : Edge Action := ⟨on,[.startQuery,.queryString,.requestUri],4⟩
def tr55 (on : ByteClass) : Edge Action := ⟨on,[.startQuery,.queryString,.requestUri],20⟩
def tr56 (on : ByteClass) : Edge Action := ⟨on,[.startQuery],31⟩
def tr58 (on : ByteClass) : Edge Action := ⟨on,[.queryString,.requestUri],4⟩
def tr59 (on : ByteClass) : Edge Action := ⟨on,[.queryString,.requestUri],20⟩
def tr203 (on : ByteClass) : Edge Action := ⟨on,[.mark],26⟩
def tr204 (on : ByteClass) : Edge Action := ⟨on,[.mark],27⟩
def tr224 (on : ByteClass) : Edge Action := ⟨on,[.requestPath],196⟩
def tr227 (on : ByteClass) : Edge Action := ⟨on,[.xml,.done],349⟩
def tr228 (on : ByteClass) : Edge Action := ⟨on,[.requestPath],199⟩
def tr232 (on : ByteClass) : Edge Action := ⟨on,[.mark],200⟩
def tr235 (on : ByteClass) : Edge Action := ⟨on,[.json,.done],349⟩

def table (r : Bool) : List (Nat × List (Edge Action)) := [
  (1,[tr2 (one 60), tr3 (one 64), tr0 method]),
  (2,[tr4 (one 32), st 175 method]),
  (3,[tr6 (one 32), tr8 (one 35), tr9 (one 37), tr10 (one 47), tr11 (one 63), tr12 alpha,
    tr7 (segmentNzNc ++ moreDelims r)]),
  (4,[tr13 (one 72)]),
  (5,[st 6 (one 84)]),
  (6,[st 7 (one 84)]),
  (7,[st 8 (one 80)]),
  (8,[st 9 (one 47)]),
  (9,[st 10 (one 49)]),
  (10,[st 11 (one 46)]),
  (11,[st 12 [(48,49)]]),
  (12,[tr21 (one 10), tr22 (one 13)]),
  (13,[tr24 (one 10), tr25 (one 13), tr23 nameChar]),
  (14,[tr27 (one 58), st 14 nameChar]),
  (15,[tr30 (one 10), tr31 (one 13), tr29 [(9,9),(32,32)], tr28 [(1,8),(11,12),(14,31),(33,126),(128,255)]]),
  (16,[tr33 (one 10), tr34 (one 13), st 16 [(1,9),(11,12),(14,126),(128,255)]]),
  (17,[st 13 (one 10)]),
  (18,[tr36 (one 10), tr27 (one 58), st 14 nameChar]),
  (19,[tr37 (one 32), tr39 (one 35), st 24 (one 37), st 26 (one 47), tr42 (one 63),
    st 19 (segmentNzNc ++ moreDelims r)]),
  (20,[tr44 (one 32), tr45 (one 37), tr43 (queryChar ++ moreDelims r)]),
  (21,[tr47 (one 32), st 22 (one 37), st 21 (queryChar ++ moreDelims r)]),
  (22,[st 23 xdigit]),
  (23,[st 21 xdigit]),
  (24,[st 25 xdigit]),
  (25,[st 19 xdigit]),
  (26,[tr37 (one 32), tr39 (one 35), st 27 (one 37), tr42 (one 63), st 26 (pathChar ++ moreDelims r)]),
  (27,[st 28 xdigit]),
  (28,[st 26 xdigit]),
  (29,[tr54 (one 32), tr55 (one 35), tr56 (one 37), tr53 (queryChar ++ moreDelims r)]),
  (30,[tr58 (one 32), tr59 (one 35), st 31 (one 37), st 30 (queryChar ++ moreDelims r)]),
  (31,[st 32 xdigit]),
  (32,[st 30 xdigit]),
  (33,[tr37 (one 32), tr39 (one 35), st 27 (one 37), st 34 (one 47), tr42 (one 63), st 26 (pchar ++ moreDelims r)]),
  (34,[tr37 (one 32), tr39 (one 35), st 36 (one 37), st 26 (one 47), st 38 (one 58), tr42 (one 63),
    st 42 (one 64), st 47 (one 91), st 35 (regName ++ moreDelims r)]),
  (35,[tr37 (one 32), tr39 (one 35), st 36 (one 37), st 26 (one 47), st 38 (one 58), tr42 (one 63),
    st 42 (one 64), st 35 (regName ++ moreDelims r)]),
  (36,[st 37 xdigit]),
  (37,[st 35 xdigit]),
  (38,[tr37 (one 32), tr39 (one 35), st 40 (one 37), st 26 (one 47), tr42 (one 63), st 42 (one 64), st 38 digit,
    st 39 (userinfo ++ moreDelims r)]),
  (39,[st 40 (one 37), st 42 (one 64), st 39 (userinfo ++ moreDelims r)]),
  (40,[st 41 xdigit]),
  (41,[st 39 xdigit]),
  (42,[tr37 (one 32), tr39 (one 35), st 44 (one 37), st 26 (one 47), st 46 (one 58), tr42 (one 63),
    st 47 (one 91), st 43 (regName ++ moreDelims r)]),
  (43,[tr37 (one 32), tr39 (one 35), st 44 (one 37), st 26 (one 47), st 46 (one 58), tr42 (one 63),
    st 43 (regName ++ moreDelims r)]),
  (44,[st 45 xdigit]),
  (45,[st 43 xdigit]),
  (46,[tr37 (one 32), tr39 (one 35), st 26 (one 47), tr42 (one 63), st 46 digit]),
  (47,[st 48 (one 6), st 167 (one 58), st 169 (one 118), st 91 xdigit]),
  (48,[st 49 xdigit]),
  (49,[st 53 (one 58), st 50 xdigit]),
  (50,[st 53 (one 58), st 51 xdigit]),
  (51,[st 53 (one 58), st 52 xdigit]),
  (52,[st 53 (one 58)]),
  (53,[st 84 (one 49), st 87 (one 50), st 54 digit, st 90 xdigit]),
  (54,[st 55 (one 46), st 80 (one 58), st 77 xdigit]),
  (55,[st 72 (one 49), st 74 (one 50), st 56 digit]),
  (56,[st 57 (one 46)]),
  (57,[st 67 (one 49), st 69 (one 50), st 58 digit]),
  (58,[st 59 (one 46)]),
  (59,[st 62 (one 49), st 64 (one 50), st 60 digit]),
  (60,[st 61 (one 93)]),
  (61,[tr37 (one 32), tr39 (one 35), st 26 (one 47), st 46 (one 58), tr42 (one 63)]),
  (62,[st 61 (one 93), st 63 digit]),
  (63,[st 61 (one 93), st 60 digit]),
  (64,[st 65 (one 48), st 66 (one 53), st 61 (one 93)]),
  (65,[st 60 digit]),
  (66,[st 60 (one 48)]),
  (67,[st 59 (one 46), st 68 digit]),
  (68,[st 59 (one 46), st 58 digit]),
  (69,[st 59 (one 46), st 70 (one 48), st 71 (one 53)]),
  (70,[st 58 digit]),
  (71,[st 58 (one 48)]),
  (72,[st 57 (one 46), st 73 digit]),
  (73,[st 57 (one 46), st 56 digit]),
  (74,[st 57 (one 46), st 75 (one 48), st 76 (one 53)]),
  (75,[st 56 digit]),
  (76,[st 56 (one 48)]),
  (77,[st 80 (one 58), st 78 xdigit]),
  (78,[st 80 (one 58), st 79 xdigit]),
  (79,[st 80 (one 58)]),
  (80,[st 81 xdigit]),
  (81,[st 61 (one 93), st 82 xdigit]),
  (82,[st 61 (one 93), st 83 xdigit]),
  (83,[st 61 (one 93), st 60 xdigit]),
  (84,[st 55 (one 46), st 80 (one 58), st 85 digit, st 77 xdigit]),
  (85,[st 55 (one 46), st 80 (one 58), st 86 digit, st 78 xdigit]),
  (86,[st 55 (one 46), st 80 (one 58), st 79 xdigit]),
  (87,[st 55 (one 46), st 88 (one 48), st 89 (one 53), st 80 (one 58), st 77 xdigit]),
  (88,[st 80 (one 58), st 86 digit, st 78 xdigit]),
  (89,[st 86 (one 48), st 80 (one 58), st 78 xdigit]),
  (90,[st 80 (one 58), st 77 xdigit]),
  (91,[st 95 (one 58), st 92 xdigit]),
  (92,[st 95 (one 58), st 93 xdigit]),
  (93,[st 95 (one 58), st 94 xdigit]),
  (94,[st 95 (one 58)]),
  (95,[st 166 (one 58), st 96 xdigit]),
  (96,[st 100 (one 58), st 97 xdigit]),
  (97,[st 100 (one 58), st 98 xdigit]),
  (98,[st 100 (one 58), st 99 xdigit]),
  (99,[st 100 (one 58)]),
  (100,[st 165 (one 58), st 101 xdigit]),
  (101,[st 105 (one 58), st 102 xdigit]),
  (102,[st 105 (one 58), st 103 xdigit]),
  (103,[st 105 (one 58), st 104 xdigit]),
  (104,[st 105 (one 58)]),
  (105,[st 164 (one 58), st 106 xdigit]),
  (106,[st 110 (one 58), st 107 xdigit]),
  (107,[st 110 (one 58), st 108 xdigit]),
  (108,[st 110 (one 58), st 109 xdigit]),
  (109,[st 110 (one 58)]),
  (110,[st 163 (one 58), st 111 xdigit]),
  (111,[st 115 (one 58), st 112 xdigit]),
  (112,[st 115 (one 58), st 113 xdigit]),
  (113,[st 115 (one 58), st 114 xdigit]),
  (114,[st 115 (one 58)]),
  (115,[st 151 (one 58), st 116 xdigit]),
  (116,[st 120 (one 58), st 117 xdigit]),
  (117,[st 120 (one 58), st 118 xdigit]),
  (118,[st 120 (one 58), st 119 xdigit]),
  (119,[st 120 (one 58)]),
  (120,[st 150 (one 58), st 121 xdigit]),
  (121,[st 125 (one 58), st 122 xdigit]),
  (122,[st 125 (one 58), st 123 xdigit]),
  (123,[st 125 (one 58), st 124 xdigit]),
  (124,[st 125 (one 58)]),
  (125,[st 126 (one 58), st 121 xdigit]),
  (126,[st 143 (one 49), st 146 (one 50), st 61 (one 93), st 48 [(2,3)], st 127 digit, st 149 xdigit]),
  (127,[st 55 (one 46), st 131 (one 58), st 61 (one 93), st 128 xdigit]),
  (128,[st 131 (one 58), st 61 (one 93), st 129 xdigit]),
  (129,[st 131 (one 58), st 61 (one 93), st 130 xdigit]),
  (130,[st 131 (one 58), st 61 (one 93)]),
  (131,[st 136 (one 49), st 139 (one 50), st 132 digit, st 142 xdigit]),
  (132,[st 55 (one 46), st 80 (one 58), st 61 (one 93), st 133 xdigit]),
  (133,[st 80 (one 58), st 61 (one 93), st 134 xdigit]),
  (134,[st 80 (one 58), st 61 (one 93), st 135 xdigit]),
  (135,[st 80 (one 58), st 61 (one 93)]),
  (136,[st 55 (one 46), st 80 (one 58), st 61 (one 93), st 137 digit, st 133 xdigit]),
  (137,[st 55 (one 46), st 80 (one 58), st 61 (one 93), st 138 digit, st 134 xdigit]),
  (138,[st 55 (one 46), st 80 (one 58), st 61 (one 93), st 135 xdigit]),
  (139,[st 55 (one 46), st 140 (one 48), st 141 (one 53), st 80 (one 58), st 61 (one 93), st 133 xdigit]),
  (140,[st 80 (one 58), st 61 (one 93), st 138 digit, st 134 xdigit]),
  (141,[st 138 (one 48), st 80 (one 58), st 61 (one 93), st 134 xdigit]),
  (142,[st 80 (one 58), st 61 (one 93), st 133 xdigit]),
  (143,[st 55 (one 46), st 131 (one 58), st 61 (one 93), st 144 digit, st 128 xdigit]),
  (144,[st 55 (one 46), st 131 (one 58), st 61 (one 93), st 145 digit, st 129 xdigit]),
  (145,[st 55 (one 46), st 131 (one 58), st 61 (one 93), st 130 xdigit]),
  (146,[st 55 (one 46), st 147 (one 48), st 148 (one 53), st 131 (one 58), st 61 (one 93), st 128 xdigit]),
  (147,[st 131 (one 58), st 61 (one 93), st 145 digit, st 129 xdigit]),
  (148,[st 145 (one 48), st 131 (one 58), st 61 (one 93), st 129 xdigit]),
  (149,[st 131 (one 58), st 61 (one 93), st 128 xdigit]),
  (150,[st 143 (one 49), st 146 (one 50), st 48 [(2,3)], st 127 digit, st 149 xdigit]),
  (151,[st 156 (one 49), st 159 (one 50), st 48 [(2,3)], st 152 digit, st 162 xdigit]),
  (152,[st 55 (one 46), st 131 (one 58), st 153 xdigit]),
  (153,[st 131 (one 58), st 154 xdigit]),
  (154,[st 131 (one 58), st 155 xdigit]),
  (155,[st 131 (one 58)]),
  (156,[st 55 (one 46), st 131 (one 58), st 157 digit, st 153 xdigit]),
  (157,[st 55 (one 46), st 131 (one 58), st 158 digit, st 154 xdigit]),
  (158,[st 55 (one 46), st 131 (one 58), st 155 xdigit]),
  (159,[st 55 (one 46), st 160 (one 48), st 161 (one 53), st 131 (one 58), st 153 xdigit]),
  (160,[st 131 (one 58), st 158 digit, st 154 xdigit]),
  (161,[st 158 (one 48), st 131 (one 58), st 154 xdigit]),
  (162,[st 131 (one 58), st 153 xdigit]),
  (163,[st 49 xdigit, st 48 [(2,3)]]),
  (164,[st 48 [(2,3)]]),
  (165,[st 48 (one 3)]),
  (166,[st 48 (one 4)]),
  (167,[st 168 (one 58)]),
  (168,[st 143 (one 49), st 146 (one 50), st 61 (one 93), st 48 [(2,5)], st 127 digit, st 149 xdigit]),
  (169,[st 170 xdigit]),
  (170,[st 171 (one 46), st 170 xdigit]),
  (171,[st 172 (userinfo ++ moreDelims r)]),
  (172,[st 61 (one 93), st 172 (userinfo ++ moreDelims r)]),
  (173,[tr37 (one 32), tr39 (one 35), st 24 (one 37), st 26 (one 47), st 174 (one 58), tr42 (one 63),
    st 173 schemeChar, st 19 (segmentNzNc ++ moreDelims r)]),
  (174,[tr6 (one 32), tr8 (one 35), tr204 (one 37), tr10 (one 47), tr11 (one 63), tr203 (pchar ++ moreDelims r)]),
  (175,[tr4 (one 32), st 176 method]),
  (176,[tr4 (one 32), st 177 method]),
  (177,[tr4 (one 32), st 178 method]),
  (178,[tr4 (one 32), st 179 method]),
  (179,[tr4 (one 32), st 180 method]),
  (180,[tr4 (one 32), st 181 method]),
  (181,[tr4 (one 32), st 182 method]),
  (182,[tr4 (one 32), st 183 method]),
  (183,[tr4 (one 32), st 184 method]),
  (184,[tr4 (one 32), st 185 method]),
  (185,[tr4 (one 32), st 186 method]),
  (186,[tr4 (one 32), st 187 method]),
  (187,[tr4 (one 32), st 188 method]),
  (188,[tr4 (one 32), st 189 method]),
  (189,[tr4 (one 32), st 190 method]),
  (190,[tr4 (one 32), st 191 method]),
  (191,[tr4 (one 32), st 192 method]),
  (192,[tr4 (one 32), st 193 method]),
  (193,[tr4 (one 32)]),
  (194,[st 195 xmlName]),
  (195,[st 195 xmlName, tr224 [(9,13),(32,32),(47,47),(62,62)]]),
  (196,[st 197 (one 62), st 196 any]),
  (197,[tr227 (one 0), st 197 (one 62), st 196 any]),
  (198,[tr228 (one 32), st 203 (one 37), st 208 (one 47), st 202 (segmentNzNc ++ moreDelims r)]),
  (199,[tr232 (one 123)]),
  (200,[st 201 (one 125), st 200 any]),
  (201,[tr235 (one 0), st 201 (one 125), st 200 any]),
  (202,[tr228 (one 32), st 203 (one 37), st 205 (one 47), st 202 (segmentNzNc ++ moreDelims r)]),
  (203,[st 204 xdigit]),
  (204,[st 202 xdigit]),
  (205,[tr228 (one 32), st 206 (one 37), st 205 (pathChar ++ moreDelims r)]),
  (206,[st 207 xdigit]),
  (207,[st 205 xdigit]),
  (208,[tr228 (one 32), st 206 (one 37), st 209 (one 47), st 205 (pchar ++ moreDelims r)]),
  (209,[tr228 (one 32), st 211 (one 37), st 205 (one 47), st 213 (one 58), st 217 (one 64), st 222 (one 91),
    st 210 (regName ++ moreDelims r)]),
  (210,[tr228 (one 32), st 211 (one 37), st 205 (one 47), st 213 (one 58), st 217 (one 64),
    st 210 (regName ++ moreDelims r)]),
  (211,[st 212 xdigit]),
  (212,[st 210 xdigit]),
  (213,[tr228 (one 32), st 215 (one 37), st 205 (one 47), st 217 (one 64), st 213 digit,
    st 214 (userinfo ++ moreDelims r)]),
  (214,[st 215 (one 37), st 217 (one 64), st 214 (userinfo ++ moreDelims r)]),
  (215,[st 216 xdigit]),
  (216,[st 214 xdigit]),
  (217,[tr228 (one 32), st 219 (one 37), st 205 (one 47), st 221 (one 58), st 222 (one 91),
    st 218 (regName ++ moreDelims r)]),
  (218,[tr228 (one 32), st 219 (one 37), st 205 (one 47), st 221 (one 58), st 218 (regName ++ moreDelims r)]),
  (219,[st 220 xdigit]),
  (220,[st 218 xdigit]),
  (221,[tr228 (one 32), st 205 (one 47), st 221 digit]),
  (222,[st 223 (one 6), st 342 (one 58), st 344 (one 118), st 266 xdigit]),
  (223,[st 224 xdigit]),
  (224,[st 228 (one 58), st 225 xdigit]),
  (225,[st 228 (one 58), st 226 xdigit]),
  (226,[st 228 (one 58), st 227 xdigit]),
  (227,[st 228 (one 58)]),
  (228,[st 259 (one 49), st 262 (one 50), st 229 digit, st 265 xdigit]),
  (229,[st 230 (one 46), st 255 (one 58), st 252 xdigit]),
  (230,[st 247 (one 49), st 249 (one 50), st 231 digit]),
  (231,[st 232 (one 46)]),
  (232,[st 242 (one 49), st 244 (one 50), st 233 digit]),
  (233,[st 234 (one 46)]),
  (234,[st 237 (one 49), st 239 (one 50), st 235 digit]),
  (235,[st 236 (one 93)]),
  (236,[tr228 (one 32), st 205 (one 47), st 221 (one 58)]),
  (237,[st 236 (one 93), st 238 digit]),
  (238,[st 236 (one 93), st 235 digit]),
  (239,[st 240 (one 48), st 241 (one 53), st 236 (one 93)]),
  (240,[st 235 digit]),
  (241,[st 235 (one 48)]),
  (242,[st 234 (one 46), st 243 digit]),
  (243,[st 234 (one 46), st 233 digit]),
  (244,[st 234 (one 46), st 245 (one 48), st 246 (one 53)]),
  (245,[st 233 digit]),
  (246,[st 233 (one 48)]),
  (247,[st 232 (one 46), st 248 digit]),
  (248,[st 232 (one 46), st 231 digit]),
  (249,[st 232 (one 46), st 250 (one 48), st 251 (one 53)]),
  (250,[st 231 digit]),
  (251,[st 231 (one 48)]),
  (252,[st 255 (one 58), st 253 xdigit]),
  (253,[st 255 (one 58), st 254 xdigit]),
  (254,[st 255 (one 58)]),
  (255,[st 256 xdigit]),
  (256,[st 236 (one 93), st 257 xdigit]),
  (257,[st 236 (one 93), st 258 xdigit]),
  (258,[st 236 (one 93), st 235 xdigit]),
  (259,[st 230 (one 46), st 255 (one 58), st 260 digit, st 252 xdigit]),
  (260,[st 230 (one 46), st 255 (one 58), st 261 digit, st 253 xdigit]),
  (261,[st 230 (one 46), st 255 (one 58), st 254 xdigit]),
  (262,[st 230 (one 46), st 263 (one 48), st 264 (one 53), st 255 (one 58), st 252 xdigit]),
  (263,[st 255 (one 58), st 261 digit, st 253 xdigit]),
  (264,[st 261 (one 48), st 255 (one 58), st 253 xdigit]),
  (265,[st 255 (one 58), st 252 xdigit]),
  (266,[st 270 (one 58), st 267 xdigit]),
  (267,[st 270 (one 58), st 268 xdigit]),
  (268,[st 270 (one 58), st 269 xdigit]),
  (269,[st 270 (one 58)]),
  (270,[st 341 (one 58), st 271 xdigit]),
  (271,[st 275 (one 58), st 272 xdigit]),
  (272,[st 275 (one 58), st 273 xdigit]),
  (273,[st 275 (one 58), st 274 xdigit]),
  (274,[st 275 (one 58)]),
  (275,[st 340 (one 58), st 276 xdigit]),
  (276,[st 280 (one 58), st 277 xdigit]),
  (277,[st 280 (one 58), st 278 xdigit]),
  (278,[st 280 (one 58), st 279 xdigit]),
  (279,[st 280 (one 58)]),
  (280,[st 339 (one 58), st 281 xdigit]),
  (281,[st 285 (one 58), st 282 xdigit]),
  (282,[st 285 (one 58), st 283 xdigit]),
  (283,[st 285 (one 58), st 284 xdigit]),
  (284,[st 285 (one 58)]),
  (285,[st 338 (one 58), st 286 xdigit]),
  (286,[st 290 (one 58), st 287 xdigit]),
  (287,[st 290 (one 58), st 288 xdigit]),
  (288,[st 290 (one 58), st 289 xdigit]),
  (289,[st 290 (one 58)]),
  (290,[st 326 (one 58), st 291 xdigit]),
  (291,[st 295 (one 58), st 292 xdigit]),
  (292,[st 295 (one 58), st 293 xdigit]),
  (293,[st 295 (one 58), st 294 xdigit]),
  (294,[st 295 (one 58)]),
  (295,[st 325 (one 58), st 296 xdigit]),
  (296,[st 300 (one 58), st 297 xdigit]),
  (297,[st 300 (one 58), st 298 xdigit]),
  (298,[st 300 (one 58), st 299 xdigit]),
  (299,[st 300 (one 58)]),
  (300,[st 301 (one 58), st 296 xdigit]),
  (301,[st 318 (one 49), st 321 (one 50), st 236 (one 93), st 223 [(2,3)], st 302 digit, st 324 xdigit]),
  (302,[st 230 (one 46), st 306 (one 58), st 236 (one 93), st 303 xdigit]),
  (303,[st 306 (one 58), st 236 (one 93), st 304 xdigit]),
  (304,[st 306 (one 58), st 236 (one 93), st 305 xdigit]),
  (305,[st 306 (one 58), st 236 (one 93)]),
  (306,[st 311 (one 49), st 314 (one 50), st 307 digit, st 317 xdigit]),
  (307,[st 230 (one 46), st 255 (one 58), st 236 (one 93), st 308 xdigit]),
  (308,[st 255 (one 58), st 236 (one 93), st 309 xdigit]),
  (309,[st 255 (one 58), st 236 (one 93), st 310 xdigit]),
  (310,[st 255 (one 58), st 236 (one 93)]),
  (311,[st 230 (one 46), st 255 (one 58), st 236 (one 93), st 312 digit, st 308 xdigit]),
  (312,[st 230 (one 46), st 255 (one 58), st 236 (one 93), st 313 digit, st 309 xdigit]),
  (313,[st 230 (one 46), st 255 (one 58), st 236 (one 93), st 310 xdigit]),
  (314,[st 230 (one 46), st 315 (one 48), st 316 (one 53), st 255 (one 58), st 236 (one 93), st 308 xdigit]),
  (315,[st 255 (one 58), st 236 (one 93), st 313 digit, st 309 xdigit]),
  (316,[st 313 (one 48), st 255 (one 58), st 236 (one 93), st 309 xdigit]),
  (317,[st 255 (one 58), st 236 (one 93), st 308 xdigit]),
  (318,[st 230 (one 46), st 306 (one 58), st 236 (one 93), st 319 digit, st 303 xdigit]),
  (319,[st 230 (one 46), st 306 (one 58), st 236 (one 93), st 320 digit, st 304 xdigit]),
  (320,[st 230 (one 46), st 306 (one 58), st 236 (one 93), st 305 xdigit]),
  (321,[st 230 (one 46), st 322 (one 48), st 323 (one 53), st 306 (one 58), st 236 (one 93), st 303 xdigit]),
  (322,[st 306 (one 58), st 236 (one 93), st 320 digit, st 304 xdigit]),
  (323,[st 320 (one 48), st 306 (one 58), st 236 (one 93), st 304 xdigit]),
  (324,[st 306 (one 58), st 236 (one 93), st 303 xdigit]),
  (325,[st 318 (one 49), st 321 (one 50), st 223 [(2,3)], st 302 digit, st 324 xdigit]),
  (326,[st 331 (one 49), st 334 (one 50), st 223 [(2,3)], st 327 digit, st 337 xdigit]),
  (327,[st 230 (one 46), st 306 (one 58), st 328 xdigit]),
  (328,[st 306 (one 58), st 329 xdigit]),
  (329,[st 306 (one 58), st 330 xdigit]),
  (330,[st 306 (one 58)]),
  (331,[st 230 (one 46), st 306 (one 58), st 332 digit, st 328 xdigit]),
  (332,[st 230 (one 46), st 306 (one 58), st 333 digit, st 329 xdigit]),
  (333,[st 230 (one 46), st 306 (one 58), st 330 xdigit]),
  (334,[st 230 (one 46), st 335 (one 48), st 336 (one 53), st 306 (one 58), st 328 xdigit]),
  (335,[st 306 (one 58), st 333 digit, st 329 xdigit]),
  (336,[st 333 (one 48), st 306 (one 58), st 329 xdigit]),
  (337,[st 306 (one 58), st 328 xdigit]),
  (338,[st 224 xdigit, st 223 [(2,3)]]),
  (339,[st 223 [(2,3)]]),
  (340,[st 223 (one 3)]),
  (341,[st 223 (one 4)]),
  (342,[st 343 (one 58)]),
  (343,[st 318 (one 49), st 321 (one 50), st 236 (one 93), st 223 [(2,5)], st 302 digit, st 324 xdigit]),
  (344,[st 345 xdigit]),
  (345,[st 346 (one 46), st 345 xdigit]),
  (346,[st 347 (userinfo ++ moreDelims r)]),
  (347,[st 236 (one 93), st 347 (userinfo ++ moreDelims r)]),
  (348,[tr27 (one 58), st 14 nameChar]),
  (349,[])]

end RequestMachine

/-- `main` of `http11_parser.rl`. -/
def requestMachine (uriRelaxed : Bool) : Radixun.Foundation.ActionMachine RequestMachine.Action :=
  ⟨1,RequestMachine.table uriRelaxed,fun a => decide (a = .done)⟩

end Radixun.Http
