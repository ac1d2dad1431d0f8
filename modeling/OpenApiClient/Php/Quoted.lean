/-!
# Single-quoted PHP literals

Between single quotes a backslash hides a backslash or a quote; every other character stands
for itself.
-/

namespace OpenApiClient.Php

/-- One character inside a literal. -/
def escapeChar (c : Char) : List Char :=
  if c = '\\' || c = '\'' then ['\\', c] else [c]

/-- The characters of a literal between its quotes. -/
def encode (cs : List Char) : List Char := cs.flatMap escapeChar

/-- The literal of a text. -/
def quote (s : String) : String := String.ofList ('\'' :: encode s.toList ++ ['\''])

/-- Reads a literal after its opening quote: its text and what follows the closing quote. -/
def decode? : List Char → Option (List Char × List Char)
  | [] => none
  | '\'' :: rest => some ([], rest)
  | '\\' :: '\\' :: rest => (decode? rest).map fun (cs, after) => ('\\' :: cs, after)
  | '\\' :: '\'' :: rest => (decode? rest).map fun (cs, after) => ('\'' :: cs, after)
  | c :: rest => (decode? rest).map fun (cs, after) => (c :: cs, after)

/-- Reading what was written gives the text back and stops at the closing quote. -/
theorem decode?_encode (cs after : List Char) :
    decode? (encode cs ++ '\'' :: after) = some (cs, after) := by
  induction cs with
  | nil => simp [encode, decode?]
  | cons c cs ih =>
    unfold encode at ih ⊢
    rw [List.flatMap_cons, List.append_assoc]
    by_cases hb : c = '\\'
    · subst hb; simp [escapeChar, decode?, ih]
    · by_cases hq : c = '\''
      · subst hq; simp [escapeChar, decode?, ih]
      · simp only [escapeChar, hb, hq, decide_false, Bool.or_self, Bool.false_eq_true, if_false,
          List.singleton_append]
        rw [decode?]
        · simp [ih]
        all_goals (intros; simp_all)

end OpenApiClient.Php
