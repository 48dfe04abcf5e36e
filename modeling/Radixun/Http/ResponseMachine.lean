import Radixun.Foundation.ActionMachine

/-! The state machine of `httpclient_parser.rl.cc`, the compiled form of the grammar of responses and
of chunk headers, laid out like the one for requests. -/
namespace Radixun.Http.ResponseMachine
open Radixun.Foundation ByteClass

/-- The actions of `httpclient_parser.rl`. -/
inductive Action where
  | mark | startField | writeField | writeValue | writeContentLen | writeConnectionClose | reasonPhrase
  | statusCode | httpVersion | chunkSize | transChunked | done
  deriving DecidableEq, Repr

def digit : ByteClass := [(48,57)]
def xdigit : ByteClass := digit ++ [(65,70),(97,102)]
def space : ByteClass := [(9,13),(32,32)]
/-- White space that does not end a line. -/
def blank : ByteClass := [(9,9),(11,12),(32,32)]
/-- White space without the line feed. -/
def lineSpace : ByteClass := [(9,9),(11,13),(32,32)]
def token : ByteClass :=
  [(33,33),(35,39),(42,43),(45,46)] ++ digit ++ [(65,90),(94,122),(124,124),(126,126)]
def any : ByteClass := [(0,255)]

def st (target : Nat) (on : ByteClass) : Edge Action := ⟨on,[],target⟩
def tr0 (on : ByteClass) : Edge Action := ⟨on,[.mark],2⟩
def tr2 (on : ByteClass) : Edge Action := ⟨on,[.mark],8⟩
def tr3 (on : ByteClass) : Edge Action := ⟨on,[.chunkSize,.done],120⟩
def tr4 (on : ByteClass) : Edge Action := ⟨on,[.chunkSize],3⟩
def tr6 (on : ByteClass) : Edge Action := ⟨on,[.chunkSize],4⟩
def tr7 (on : ByteClass) : Edge Action := ⟨on,[.done],120⟩
def tr8 (on : ByteClass) : Edge Action := ⟨on,[.startField],5⟩
def tr9 (on : ByteClass) : Edge Action := ⟨on,[.writeField,.mark,.writeValue,.done],120⟩
def tr10 (on : ByteClass) : Edge Action := ⟨on,[.writeField,.mark,.writeValue],3⟩
def tr12 (on : ByteClass) : Edge Action := ⟨on,[.writeField,.mark,.writeValue],4⟩
def tr13 (on : ByteClass) : Edge Action := ⟨on,[.writeField,.mark],6⟩
def tr14 (on : ByteClass) : Edge Action := ⟨on,[.mark],7⟩
def tr15 (on : ByteClass) : Edge Action := ⟨on,[.writeValue,.done],120⟩
def tr16 (on : ByteClass) : Edge Action := ⟨on,[.writeValue],3⟩
def tr18 (on : ByteClass) : Edge Action := ⟨on,[.writeValue],4⟩
def tr26 (on : ByteClass) : Edge Action := ⟨on,[.httpVersion],16⟩
def tr27 (on : ByteClass) : Edge Action := ⟨on,[.mark],17⟩
def tr28 (on : ByteClass) : Edge Action := ⟨on,[.statusCode],18⟩
def tr30 (on : ByteClass) : Edge Action := ⟨on,[.mark],19⟩
def tr32 (on : ByteClass) : Edge Action := ⟨on,[.reasonPhrase],20⟩
def tr33 (on : ByteClass) : Edge Action := ⟨on,[.reasonPhrase],24⟩
def tr35 (on : ByteClass) : Edge Action := ⟨on,[.startField],21⟩
def tr36 (on : ByteClass) : Edge Action := ⟨on,[.startField],25⟩
def tr37 (on : ByteClass) : Edge Action := ⟨on,[.startField],44⟩
def tr39 (on : ByteClass) : Edge Action := ⟨on,[.writeField],22⟩
def tr40 (on : ByteClass) : Edge Action := ⟨on,[.mark],23⟩
def tr41 (on : ByteClass) : Edge Action := ⟨on,[.mark],22⟩
def tr42 (on : ByteClass) : Edge Action := ⟨on,[.mark,.writeValue],20⟩
def tr43 (on : ByteClass) : Edge Action := ⟨on,[.mark,.writeValue],24⟩
def tr45 (on : ByteClass) : Edge Action := ⟨on,[.writeValue],20⟩
def tr46 (on : ByteClass) : Edge Action := ⟨on,[.writeValue],24⟩
def tr58 (on : ByteClass) : Edge Action := ⟨on,[.writeField],35⟩
def tr59 (on : ByteClass) : Edge Action := ⟨on,[.mark],35⟩
def tr60 (on : ByteClass) : Edge Action := ⟨on,[.mark,.writeValue],36⟩
def tr61 (on : ByteClass) : Edge Action := ⟨on,[.mark,.writeValue],95⟩
def tr62 (on : ByteClass) : Edge Action := ⟨on,[.mark],96⟩
def tr64 (on : ByteClass) : Edge Action := ⟨on,[.done],122⟩
def tr66 (on : ByteClass) : Edge Action := ⟨on,[.startField],90⟩
def tr74 (on : ByteClass) : Edge Action := ⟨on,[.writeConnectionClose,.done],120⟩
def tr75 (on : ByteClass) : Edge Action := ⟨on,[.writeConnectionClose],3⟩
def tr76 (on : ByteClass) : Edge Action := ⟨on,[.writeConnectionClose,.startField],21⟩
def tr77 (on : ByteClass) : Edge Action := ⟨on,[.writeConnectionClose,.startField],25⟩
def tr78 (on : ByteClass) : Edge Action := ⟨on,[.writeConnectionClose,.startField],44⟩
def tr95 (on : ByteClass) : Edge Action := ⟨on,[.writeField],61⟩
def tr96 (on : ByteClass) : Edge Action := ⟨on,[.mark],61⟩
def tr97 (on : ByteClass) : Edge Action := ⟨on,[.mark,.writeValue],62⟩
def tr98 (on : ByteClass) : Edge Action := ⟨on,[.mark,.writeValue],80⟩
def tr99 (on : ByteClass) : Edge Action := ⟨on,[.mark],81⟩
def tr101 (on : ByteClass) : Edge Action := ⟨on,[.done],121⟩
def tr103 (on : ByteClass) : Edge Action := ⟨on,[.mark,.startField],73⟩
def tr104 (on : ByteClass) : Edge Action := ⟨on,[.mark],64⟩
def tr111 (on : ByteClass) : Edge Action := ⟨on,[.writeValue,.transChunked],20⟩
def tr112 (on : ByteClass) : Edge Action := ⟨on,[.writeValue],71⟩
def tr113 (on : ByteClass) : Edge Action := ⟨on,[.transChunked],20⟩
def tr136 (on : ByteClass) : Edge Action := ⟨on,[.writeValue],43⟩
def tr137 (on : ByteClass) : Edge Action := ⟨on,[.writeValue],88⟩
def tr148 (on : ByteClass) : Edge Action := ⟨on,[.writeField],112⟩
def tr149 (on : ByteClass) : Edge Action := ⟨on,[.mark],112⟩
def tr150 (on : ByteClass) : Edge Action := ⟨on,[.mark,.writeValue],113⟩
def tr151 (on : ByteClass) : Edge Action := ⟨on,[.mark,.writeValue],118⟩
def tr152 (on : ByteClass) : Edge Action := ⟨on,[.mark],119⟩
def tr154 (on : ByteClass) : Edge Action := ⟨on,[.done],123⟩
def tr156 (on : ByteClass) : Edge Action := ⟨on,[.mark,.startField],117⟩
def tr157 (on : ByteClass) : Edge Action := ⟨on,[.mark],115⟩
def tr158 (on : ByteClass) : Edge Action := ⟨on,[.writeContentLen,.writeValue],20⟩
def tr159 (on : ByteClass) : Edge Action := ⟨on,[.writeContentLen,.writeValue],24⟩

def table : List (Nat × List (Edge Action)) := [
  (1,[tr2 (one 72), tr0 xdigit]),
  (2,[tr3 (one 10), tr4 (one 13), tr6 (one 59), st 2 xdigit]),
  (3,[tr7 (one 10)]),
  (4,[tr8 token]),
  (5,[tr9 (one 10), tr10 (one 13), tr12 (one 59), tr13 (one 61), st 5 token]),
  (6,[tr14 token]),
  (7,[tr15 (one 10), tr16 (one 13), tr18 (one 59), st 7 token]),
  (8,[st 9 (one 84)]),
  (9,[st 10 (one 84)]),
  (10,[st 11 (one 80)]),
  (11,[st 12 (one 47)]),
  (12,[st 13 digit]),
  (13,[st 14 (one 46), st 13 digit]),
  (14,[st 15 digit]),
  (15,[tr26 (one 32), st 15 digit]),
  (16,[tr27 digit]),
  (17,[tr28 (one 32), st 17 digit]),
  (18,[tr30 [(0,9),(11,255)]]),
  (19,[tr32 (one 10), tr33 (one 13), st 19 any]),
  (20,[tr7 (one 10), st 3 (one 13), tr36 (letter 67), tr37 (letter 84), tr35 token]),
  (21,[tr39 (one 58), st 21 token]),
  (22,[tr42 (one 10), tr43 (one 13), tr41 blank, tr40 any]),
  (23,[tr45 (one 10), tr46 (one 13), st 23 any]),
  (24,[st 20 (one 10)]),
  (25,[tr39 (one 58), st 26 (letter 79), st 21 token]),
  (26,[tr39 (one 58), st 27 (letter 78), st 21 token]),
  (27,[tr39 (one 58), st 28 (letter 78), st 101 (letter 84), st 21 token]),
  (28,[tr39 (one 58), st 29 (letter 69), st 21 token]),
  (29,[tr39 (one 58), st 30 (letter 67), st 21 token]),
  (30,[tr39 (one 58), st 31 (letter 84), st 21 token]),
  (31,[tr39 (one 58), st 32 (letter 73), st 21 token]),
  (32,[tr39 (one 58), st 33 (letter 79), st 21 token]),
  (33,[tr39 (one 58), st 34 (letter 78), st 21 token]),
  (34,[tr58 (one 58), st 21 token]),
  (35,[tr60 (one 10), tr61 (one 13), tr62 (letter 67), tr59 blank, tr40 any]),
  (36,[tr64 (one 10), st 89 (one 13), tr66 (letter 67), tr37 (letter 84), st 37 blank, tr35 token]),
  (37,[st 38 (letter 67), st 37 space]),
  (38,[st 39 (letter 76)]),
  (39,[st 40 (letter 79)]),
  (40,[st 41 (letter 83)]),
  (41,[st 42 (letter 69)]),
  (42,[st 43 (one 10), st 88 (one 13)]),
  (43,[tr74 (one 10), tr75 (one 13), tr77 (letter 67), tr78 (letter 84), tr76 token]),
  (44,[tr39 (one 58), st 45 (letter 82), st 21 token]),
  (45,[tr39 (one 58), st 46 (letter 65), st 21 token]),
  (46,[tr39 (one 58), st 47 (letter 78), st 21 token]),
  (47,[tr39 (one 58), st 48 (letter 83), st 21 token]),
  (48,[tr39 (one 58), st 49 (letter 70), st 21 token]),
  (49,[tr39 (one 58), st 50 (letter 69), st 21 token]),
  (50,[tr39 (one 58), st 51 (letter 82), st 21 token]),
  (51,[st 52 (one 45), tr39 (one 58), st 21 token]),
  (52,[tr39 (one 58), st 53 (letter 69), st 21 token]),
  (53,[tr39 (one 58), st 54 (letter 78), st 21 token]),
  (54,[tr39 (one 58), st 55 (letter 67), st 21 token]),
  (55,[tr39 (one 58), st 56 (letter 79), st 21 token]),
  (56,[tr39 (one 58), st 57 (letter 68), st 21 token]),
  (57,[tr39 (one 58), st 58 (letter 73), st 21 token]),
  (58,[tr39 (one 58), st 59 (letter 78), st 21 token]),
  (59,[tr39 (one 58), st 60 (letter 71), st 21 token]),
  (60,[tr95 (one 58), st 21 token]),
  (61,[tr97 (one 10), tr98 (one 13), tr99 (letter 67), tr96 blank, tr40 any]),
  (62,[tr101 (one 10), st 72 (one 13), tr103 (letter 67), tr37 (letter 84), st 63 blank, tr35 token]),
  (63,[tr104 (letter 67), st 63 space]),
  (64,[st 65 (letter 72)]),
  (65,[st 66 (letter 85)]),
  (66,[st 67 (letter 78)]),
  (67,[st 68 (letter 75)]),
  (68,[st 69 (letter 69)]),
  (69,[st 70 (letter 68)]),
  (70,[tr111 (one 10), tr112 (one 13)]),
  (71,[tr113 (one 10)]),
  (72,[tr101 (one 10), tr104 (letter 67), st 63 lineSpace]),
  (73,[tr39 (one 58), st 74 (letter 72), st 26 (letter 79), st 21 token]),
  (74,[tr39 (one 58), st 75 (letter 85), st 21 token]),
  (75,[tr39 (one 58), st 76 (letter 78), st 21 token]),
  (76,[tr39 (one 58), st 77 (letter 75), st 21 token]),
  (77,[tr39 (one 58), st 78 (letter 69), st 21 token]),
  (78,[tr39 (one 58), st 79 (letter 68), st 21 token]),
  (79,[tr111 (one 10), tr112 (one 13), tr39 (one 58), st 21 token]),
  (80,[st 62 (one 10), tr104 (letter 67), st 63 lineSpace]),
  (81,[tr45 (one 10), tr46 (one 13), st 82 (letter 72), st 23 any]),
  (82,[tr45 (one 10), tr46 (one 13), st 83 (letter 85), st 23 any]),
  (83,[tr45 (one 10), tr46 (one 13), st 84 (letter 78), st 23 any]),
  (84,[tr45 (one 10), tr46 (one 13), st 85 (letter 75), st 23 any]),
  (85,[tr45 (one 10), tr46 (one 13), st 86 (letter 69), st 23 any]),
  (86,[tr45 (one 10), tr46 (one 13), st 87 (letter 68), st 23 any]),
  (87,[tr111 (one 10), tr112 (one 13), st 23 any]),
  (88,[st 43 (one 10)]),
  (89,[tr64 (one 10), st 38 (letter 67), st 37 lineSpace]),
  (90,[tr39 (one 58), st 91 (letter 76), st 26 (letter 79), st 21 token]),
  (91,[tr39 (one 58), st 92 (letter 79), st 21 token]),
  (92,[tr39 (one 58), st 93 (letter 83), st 21 token]),
  (93,[tr39 (one 58), st 94 (letter 69), st 21 token]),
  (94,[st 43 (one 10), st 88 (one 13), tr39 (one 58), st 21 token]),
  (95,[st 36 (one 10), st 38 (letter 67), st 37 lineSpace]),
  (96,[tr45 (one 10), tr46 (one 13), st 97 (letter 76), st 23 any]),
  (97,[tr45 (one 10), tr46 (one 13), st 98 (letter 79), st 23 any]),
  (98,[tr45 (one 10), tr46 (one 13), st 99 (letter 83), st 23 any]),
  (99,[tr45 (one 10), tr46 (one 13), st 100 (letter 69), st 23 any]),
  (100,[tr136 (one 10), tr137 (one 13), st 23 any]),
  (101,[tr39 (one 58), st 102 (letter 69), st 21 token]),
  (102,[tr39 (one 58), st 103 (letter 78), st 21 token]),
  (103,[tr39 (one 58), st 104 (letter 84), st 21 token]),
  (104,[st 105 (one 45), tr39 (one 58), st 21 token]),
  (105,[tr39 (one 58), st 106 (letter 76), st 21 token]),
  (106,[tr39 (one 58), st 107 (letter 69), st 21 token]),
  (107,[tr39 (one 58), st 108 (letter 78), st 21 token]),
  (108,[tr39 (one 58), st 109 (letter 71), st 21 token]),
  (109,[tr39 (one 58), st 110 (letter 84), st 21 token]),
  (110,[tr39 (one 58), st 111 (letter 72), st 21 token]),
  (111,[tr148 (one 58), st 21 token]),
  (112,[tr150 (one 10), tr151 (one 13), tr149 blank, tr152 digit, tr40 any]),
  (113,[tr154 (one 10), st 116 (one 13), tr36 (letter 67), tr37 (letter 84), st 114 blank, tr156 digit, tr35 token]),
  (114,[st 114 space, tr157 digit]),
  (115,[tr158 (one 10), tr159 (one 13), st 115 digit]),
  (116,[tr154 (one 10), st 114 lineSpace, tr157 digit]),
  (117,[tr158 (one 10), tr159 (one 13), tr39 (one 58), st 117 digit, st 21 token]),
  (118,[st 113 (one 10), st 114 lineSpace, tr157 digit]),
  (119,[tr158 (one 10), tr159 (one 13), st 119 digit, st 23 any]),
  (120,[]),
  (121,[tr104 (letter 67), st 63 space]),
  (122,[st 38 (letter 67), st 37 space]),
  (123,[st 114 space, tr157 digit])]

end ResponseMachine

/-- `main` of `httpclient_parser.rl`. -/
def responseMachine : Radixun.Foundation.ActionMachine ResponseMachine.Action :=
  ⟨1,ResponseMachine.table,fun a => decide (a = .done)⟩

end Radixun.Http
