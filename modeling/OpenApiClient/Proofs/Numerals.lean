import Mathlib.Tactic.ByContra
import OpenApiClient.Json.Reader

/-!
# Numerals of JSON

A numeral is a sign, whole digits, a fraction and an exponent.  The reader takes the longest one
that stands at the start of a text, which is the numeral itself wherever nothing follows that would
make it longer.
-/

namespace OpenApiClient.Json

/-- Nothing but digits, and at least one. -/
structure AreDigits (ds : List Char) : Prop where
  all : ∀ d ∈ ds, isDigit d = true
  ne_nil : ds ≠ []

/-- Whole digits: no zero in front of others. -/
inductive IsWhole : List Char → Prop
  | zero : IsWhole ['0']
  | digits {d : Char} {ds : List Char} (h : AreDigits (d :: ds)) (hd : d ≠ '0') : IsWhole (d :: ds)

/-- A point with the digits behind it, or nothing. -/
inductive IsFraction : Option (List Char) → List Char → Prop
  | none : IsFraction none []
  | digits {ds : List Char} (h : AreDigits ds) : IsFraction (some ds) ('.' :: ds)

/-- An exponent with its sign, or nothing. -/
inductive IsExponent : Option (Bool × List Char) → List Char → Prop
  | none : IsExponent none []
  | unsigned {e : Char} {ds : List Char} (he : e = 'e' ∨ e = 'E') (h : AreDigits ds) :
      IsExponent (some (false, ds)) (e :: ds)
  | plus {e : Char} {ds : List Char} (he : e = 'e' ∨ e = 'E') (h : AreDigits ds) :
      IsExponent (some (false, ds)) (e :: '+' :: ds)
  | minus {e : Char} {ds : List Char} (he : e = 'e' ∨ e = 'E') (h : AreDigits ds) :
      IsExponent (some (true, ds)) (e :: '-' :: ds)

/-- What is written for a number. -/
inductive IsNumeral : Numeral → List Char → Prop
  | intro {n : Numeral} {point power : List Char} (whole : IsWhole n.whole)
      (fraction : IsFraction n.fraction point) (exponent : IsExponent n.exponent power) :
      IsNumeral n ((if n.negative then ['-'] else []) ++ (n.whole ++ (point ++ power)))

/-- Nothing by which a numeral before it would be longer. -/
structure Stops (rest : List Char) : Prop where
  digit : ∀ d ∈ rest.head?, isDigit d = false
  fraction : ∀ ds p, IsFraction (some ds) p → ¬ p <+: rest
  exponent : ∀ e p, IsExponent (some e) p → ¬ p <+: rest

section Parts

variable {cs ds rest : List Char}

theorem takeWhile_isDigit_append (h : ∀ d ∈ ds, isDigit d = true)
    (hrest : ∀ d ∈ rest.head?, isDigit d = false) : (ds ++ rest).takeWhile isDigit = ds := by
  rw [List.takeWhile_append_of_pos h]
  cases rest with
  | nil => simp
  | cons d rest => simp [hrest d rfl]

theorem areDigits_takeWhile (h : cs.takeWhile isDigit ≠ []) : AreDigits (cs.takeWhile isDigit) :=
  ⟨fun _ hd => (List.all_eq_true.1 List.all_takeWhile) _ hd, h⟩

/-- The whole digits at the start of a text. -/
def wholeAt (cs : List Char) : List Char :=
  match cs with
  | '0' :: _ => ['0']
  | cs => cs.takeWhile isDigit

/-- The digits behind a point at the start of a text. -/
def fractionAt (cs : List Char) : Option (List Char) :=
  let digits := (cs.drop 1).takeWhile isDigit
  if cs.head? = some '.' && !digits.isEmpty then some digits else none

/-- The exponent at the start of a text, with its width. -/
def exponentAt (cs : List Char) : Option (Bool × List Char) × Nat :=
  let signed := (cs.drop 1).head?.any fun c => c = '-' || c = '+'
  let power := (cs.drop (if signed then 2 else 1)).takeWhile isDigit
  let marked := cs.head?.any fun c => c = 'e' || c = 'E'
  let exponent :=
    if marked && !power.isEmpty then some (decide ((cs.drop 1).head? = some '-'), power) else none
  (exponent, exponent.elim 0 fun e => e.2.length + (if signed then 2 else 1))

/-- The numeral at the start of a text behind its sign. -/
def unsignedAt (negative : Bool) (cs : List Char) : Option (Numeral × Nat) :=
  let whole := wholeAt cs
  if whole = [] then none
  else
    let cs := cs.drop whole.length
    let fraction := fractionAt cs
    let exponent := exponentAt (cs.drop (fraction.elim 0 (·.length + 1)))
    some (⟨negative, whole, fraction, exponent.1⟩,
      whole.length + fraction.elim 0 (·.length + 1) + exponent.2)

theorem numeral?_minus (cs : List Char) :
    numeral? ('-' :: cs) = (unsignedAt true cs).map fun r => (r.1, r.2 + 1) := by
  have heq : numeral? ('-' :: cs) =
      if (wholeAt cs).isEmpty then none
      else
        let cs' := cs.drop (wholeAt cs).length
        let exponent := exponentAt (cs'.drop ((fractionAt cs').elim 0 (·.length + 1)))
        some (⟨true, wholeAt cs, fractionAt cs', exponent.1⟩,
          1 + (wholeAt cs).length + (fractionAt cs').elim 0 (·.length + 1) + exponent.2) := rfl
  rw [heq, unsignedAt]
  by_cases hnil : wholeAt cs = []
  · simp [hnil]
  · simp [hnil]
    omega

theorem numeral?_of_ne (h : cs.head? ≠ some '-') : numeral? cs = unsignedAt false cs := by
  have heq : numeral? cs =
      let negative := cs.head? = some '-'
      let cs := if negative then cs.drop 1 else cs
      if (wholeAt cs).isEmpty then none
      else
        let cs' := cs.drop (wholeAt cs).length
        let exponent := exponentAt (cs'.drop ((fractionAt cs').elim 0 (·.length + 1)))
        some (⟨negative, wholeAt cs, fractionAt cs', exponent.1⟩,
          (if negative then 1 else 0) + (wholeAt cs).length +
            (fractionAt cs').elim 0 (·.length + 1) + exponent.2) := rfl
  rw [heq, unsignedAt]
  by_cases hnil : wholeAt cs = []
  · simp [h, hnil]
  · simp [h, hnil]

theorem wholeAt_cons {d : Char} (hd : d ≠ '0') (cs : List Char) :
    wholeAt (d :: cs) = (d :: cs).takeWhile isDigit := by
  unfold wholeAt
  split
  · next heq => exact absurd (List.cons.inj heq).1 hd
  · rfl

theorem wholeAt_append (h : IsWhole ds) (hrest : ∀ d ∈ rest.head?, isDigit d = false) :
    wholeAt (ds ++ rest) = ds := by
  cases h with
  | zero => rfl
  | digits h hd => exact (wholeAt_cons hd _).trans (takeWhile_isDigit_append h.all hrest)

theorem takeWhile_isDigit_cases (cs : List Char) :
    ∃ rest, cs = cs.takeWhile isDigit ++ rest ∧ ∀ d ∈ rest.head?, isDigit d = false := by
  refine ⟨cs.dropWhile isDigit, List.takeWhile_append_dropWhile.symm, fun d hd => ?_⟩
  have h := List.head?_dropWhile_not isDigit cs
  rw [hd] at h
  exact h

theorem exists_of_wholeAt (h : wholeAt cs ≠ []) :
    ∃ rest, cs = wholeAt cs ++ rest ∧ IsWhole (wholeAt cs) ∧
      (wholeAt cs ≠ ['0'] → ∀ d ∈ rest.head?, isDigit d = false) := by
  cases cs with
  | nil => exact absurd rfl h
  | cons d cs =>
      by_cases hd : d = '0'
      · subst hd
        exact ⟨cs, rfl, .zero, fun hne => absurd rfl hne⟩
      · rw [wholeAt_cons hd] at h ⊢
        obtain ⟨rest, hcs, hrest⟩ := takeWhile_isDigit_cases (d :: cs)
        have hd' : isDigit d = true := by
          by_contra hnot
          exact h (by rw [List.takeWhile_cons, if_neg hnot])
        refine ⟨rest, hcs, ?_, fun _ => hrest⟩
        have hdigits := areDigits_takeWhile h
        rw [List.takeWhile_cons, if_pos hd'] at hdigits ⊢
        exact .digits hdigits hd

theorem AreDigits.takeWhile_ne_nil (h : AreDigits ds) (hds : ds <+: cs) :
    cs.takeWhile isDigit ≠ [] := by
  obtain ⟨rest, rfl⟩ := hds
  rw [List.takeWhile_append_of_pos h.all]
  exact fun hnil => h.ne_nil (List.append_eq_nil_iff.1 hnil).1

theorem fractionAt_append {f : Option (List Char)} {point : List Char} (h : IsFraction f point)
    (hdigit : ∀ d ∈ rest.head?, isDigit d = false)
    (hfraction : ∀ ds p, IsFraction (some ds) p → ¬ p <+: rest) :
    fractionAt (point ++ rest) = f := by
  cases h with
  | none =>
      rw [List.nil_append, fractionAt]
      refine if_neg fun h => ?_
      rw [Bool.and_eq_true, decide_eq_true_eq, Bool.not_eq_true', List.isEmpty_eq_false_iff] at h
      obtain ⟨cs, rfl⟩ := List.head?_eq_some_iff.1 h.1
      obtain ⟨tail, htail⟩ := List.takeWhile_prefix (l := cs) isDigit
      exact hfraction _ _ (.digits (areDigits_takeWhile h.2)) ⟨tail, congrArg ('.' :: ·) htail⟩
  | digits h => simp [fractionAt, takeWhile_isDigit_append h.all hdigit, h.ne_nil]

theorem exists_of_fractionAt (cs : List Char) :
    ∃ point rest, cs = point ++ rest ∧ IsFraction (fractionAt cs) point ∧
      point.length = (fractionAt cs).elim 0 (·.length + 1) ∧
      (fractionAt cs = none → ∀ ds p, IsFraction (some ds) p → ¬ p <+: cs) := by
  unfold fractionAt
  dsimp only
  split
  · next h =>
      rw [Bool.and_eq_true, decide_eq_true_eq, Bool.not_eq_true', List.isEmpty_eq_false_iff] at h
      obtain ⟨cs, rfl⟩ := List.head?_eq_some_iff.1 h.1
      obtain ⟨tail, htail⟩ := List.takeWhile_prefix (l := cs) isDigit
      exact ⟨'.' :: cs.takeWhile isDigit, tail, congrArg ('.' :: ·) htail.symm,
        .digits (areDigits_takeWhile h.2), rfl, nofun⟩
  · next h =>
      refine ⟨[], cs, rfl, .none, rfl, fun _ ds p hp hprefix => h ?_⟩
      cases hp with
      | digits hds =>
          obtain ⟨rest, rfl⟩ := hprefix
          simpa using hds.takeWhile_ne_nil (List.prefix_append ds rest)

theorem exponentAt_unmarked (h : ∀ e ∈ cs.head?, e ≠ 'e' ∧ e ≠ 'E') :
    exponentAt cs = (none, 0) := by
  cases cs with
  | nil => rfl
  | cons e cs => simp [exponentAt, h e rfl]

theorem exponentAt_signed {e sign : Char} (he : e = 'e' ∨ e = 'E') (hsign : sign = '-' ∨ sign = '+')
    (cs : List Char) :
    exponentAt (e :: sign :: cs) =
      if cs.takeWhile isDigit = [] then (none, 0)
      else
        (some (decide (sign = '-'), cs.takeWhile isDigit), (cs.takeWhile isDigit).length + 2) := by
  by_cases hnil : cs.takeWhile isDigit = [] <;> simp [exponentAt, he, hsign, hnil]

theorem exponentAt_unsigned {e : Char} (he : e = 'e' ∨ e = 'E')
    (h : ∀ c ∈ cs.head?, c ≠ '-' ∧ c ≠ '+') :
    exponentAt (e :: cs) =
      if cs.takeWhile isDigit = [] then (none, 0)
      else (some (false, cs.takeWhile isDigit), (cs.takeWhile isDigit).length + 1) := by
  cases cs with
  | nil => simp [exponentAt]
  | cons c cs =>
      by_cases hnil : (c :: cs).takeWhile isDigit = [] <;> simp [exponentAt, he, h c rfl, hnil]

/-- An exponent begins with its letter, and its digits follow at once or behind a sign. -/
theorem IsExponent.exists_cons {x : Bool × List Char} {p : List Char} (h : IsExponent (some x) p) :
    ∃ e tail, p = e :: tail ∧ (e = 'e' ∨ e = 'E') ∧
      (AreDigits tail ∨
        ∃ sign ds, tail = sign :: ds ∧ (sign = '-' ∨ sign = '+') ∧ AreDigits ds) := by
  cases h with
  | unsigned he h => exact ⟨_, _, rfl, he, .inl h⟩
  | plus he h => exact ⟨_, _, rfl, he, .inr ⟨_, _, rfl, .inr rfl, h⟩⟩
  | minus he h => exact ⟨_, _, rfl, he, .inr ⟨_, _, rfl, .inl rfl, h⟩⟩

theorem AreDigits.head_not_sign (h : AreDigits ds) (rest : List Char) :
    ∀ c ∈ (ds ++ rest).head?, c ≠ '-' ∧ c ≠ '+' := by
  obtain ⟨d, ds, rfl⟩ := List.exists_cons_of_ne_nil h.ne_nil
  intro c hc
  obtain rfl := Option.some.inj hc
  constructor <;> rintro rfl <;> exact absurd (h.all _ List.mem_cons_self) (by decide)

/-- How the exponent at the start of a text comes about. -/
theorem exponentAt_cases (cs : List Char) :
    (∃ x power rest, cs = power ++ rest ∧ IsExponent (some x) power ∧
      exponentAt cs = (some x, power.length)) ∨
    (exponentAt cs = (none, 0) ∧ ∀ x p, IsExponent (some x) p → ¬ p <+: cs) := by
  by_cases hmarked : ∃ e tail, cs = e :: tail ∧ (e = 'e' ∨ e = 'E')
  · obtain ⟨e, cs, rfl, he⟩ := hmarked
    by_cases hsigned : ∃ sign tail, cs = sign :: tail ∧ (sign = '-' ∨ sign = '+')
    · obtain ⟨sign, cs, rfl, hsign⟩ := hsigned
      have heq := exponentAt_signed he hsign cs
      obtain ⟨tail, htail⟩ := List.takeWhile_prefix (l := cs) isDigit
      by_cases hnil : cs.takeWhile isDigit = []
      · rw [if_pos hnil] at heq
        refine .inr ⟨heq, fun x p hp hprefix => ?_⟩
        obtain ⟨e', tail', rfl, -, hdigits⟩ := hp.exists_cons
        obtain ⟨-, hprefix⟩ := List.cons_prefix_cons.1 hprefix
        rcases hdigits with h | ⟨sign', ds, rfl, -, h⟩
        · obtain ⟨rest, hrest⟩ := hprefix
          have hne := h.head_not_sign rest sign (by rw [hrest]; rfl)
          exact hsign.elim hne.1 hne.2
        · exact h.takeWhile_ne_nil (List.cons_prefix_cons.1 hprefix).2 hnil
      · rw [if_neg hnil] at heq
        have hdigits := areDigits_takeWhile hnil
        refine .inl ⟨_, e :: sign :: cs.takeWhile isDigit, tail, ?_, ?_, heq⟩
        · rw [List.cons_append, List.cons_append, htail]
        · rcases hsign with rfl | rfl
          · exact .minus he hdigits
          · exact .plus he hdigits
    · have hhead : ∀ c ∈ cs.head?, c ≠ '-' ∧ c ≠ '+' := by
        intro c hc
        obtain ⟨tail, rfl⟩ := List.head?_eq_some_iff.1 hc
        exact not_or.1 fun h => hsigned ⟨c, tail, rfl, h⟩
      have heq := exponentAt_unsigned he hhead
      obtain ⟨tail, htail⟩ := List.takeWhile_prefix (l := cs) isDigit
      by_cases hnil : cs.takeWhile isDigit = []
      · rw [if_pos hnil] at heq
        refine .inr ⟨heq, fun x p hp hprefix => ?_⟩
        obtain ⟨e', tail', rfl, -, hdigits⟩ := hp.exists_cons
        obtain ⟨-, hprefix⟩ := List.cons_prefix_cons.1 hprefix
        rcases hdigits with h | ⟨sign, ds, rfl, hsign, -⟩
        · exact h.takeWhile_ne_nil hprefix hnil
        · obtain ⟨rest, rfl⟩ := hprefix
          exact hsigned ⟨sign, ds ++ rest, rfl, hsign⟩
      · rw [if_neg hnil] at heq
        exact .inl ⟨_, e :: cs.takeWhile isDigit, tail, by rw [List.cons_append, htail],
          .unsigned he (areDigits_takeWhile hnil), heq⟩
  · refine .inr ⟨exponentAt_unmarked fun e he => ?_, fun x p hp hprefix => ?_⟩
    · obtain ⟨tail, rfl⟩ := List.head?_eq_some_iff.1 he
      exact not_or.1 fun h => hmarked ⟨e, tail, rfl, h⟩
    · obtain ⟨e, tail, rfl, he, -⟩ := hp.exists_cons
      obtain ⟨rest, rfl⟩ := hprefix
      exact hmarked ⟨e, tail ++ rest, rfl, he⟩

theorem exponentAt_append {x : Option (Bool × List Char)} {power : List Char}
    (h : IsExponent x power) (hrest : Stops rest) :
    exponentAt (power ++ rest) = (x, power.length) := by
  cases h with
  | none =>
      rcases exponentAt_cases rest with ⟨x, power, rest, rfl, hpower, -⟩ | ⟨hvalue, -⟩
      · exact absurd (List.prefix_append power rest) (hrest.exponent _ _ hpower)
      · exact hvalue
  | unsigned he h =>
      rw [List.cons_append, exponentAt_unsigned he (h.head_not_sign _),
        takeWhile_isDigit_append h.all hrest.digit, if_neg h.ne_nil]
      rfl
  | plus he h =>
      rw [List.cons_append, List.cons_append, exponentAt_signed he (.inr rfl),
        takeWhile_isDigit_append h.all hrest.digit, if_neg h.ne_nil]
      rfl
  | minus he h =>
      rw [List.cons_append, List.cons_append, exponentAt_signed he (.inl rfl),
        takeWhile_isDigit_append h.all hrest.digit, if_neg h.ne_nil]
      rfl

end Parts

section Numerals

variable {n : Numeral} {x : Option (Bool × List Char)} {cs rest point power : List Char}

theorem IsFraction.length {f : Option (List Char)} (h : IsFraction f point) :
    f.elim 0 (·.length + 1) = point.length := by
  cases h <;> rfl

/-- What stands behind the fraction of a numeral does not go on with digits or another fraction. -/
theorem IsExponent.append_stops (h : IsExponent x power) (hrest : Stops rest) :
    (∀ d ∈ (power ++ rest).head?, isDigit d = false) ∧
      ∀ ds p, IsFraction (some ds) p → ¬ p <+: power ++ rest := by
  cases x with
  | none =>
      cases h
      exact ⟨hrest.digit, hrest.fraction⟩
  | some x =>
      obtain ⟨e, tail, rfl, he, -⟩ := h.exists_cons
      have hletter : isDigit e = false ∧ e ≠ '.' := by
        rcases he with rfl | rfl <;> decide
      refine ⟨fun d hd => Option.some.inj hd ▸ hletter.1, fun ds p hp hprefix => ?_⟩
      cases hp
      exact hletter.2 (List.cons_prefix_cons.1 hprefix).1.symm

theorem unsignedAt_append {ds : List Char} {f : Option (List Char)} (negative : Bool)
    (whole : IsWhole ds) (fraction : IsFraction f point) (exponent : IsExponent x power)
    (hrest : Stops rest) :
    unsignedAt negative (ds ++ (point ++ (power ++ rest))) =
      some (⟨negative, ds, f, x⟩, ds.length + point.length + power.length) := by
  obtain ⟨hdigit, hfraction⟩ := exponent.append_stops hrest
  have hpoint : ∀ d ∈ (point ++ (power ++ rest)).head?, isDigit d = false := by
    cases fraction with
    | none => exact hdigit
    | digits h => exact fun d hd => Option.some.inj hd ▸ rfl
  have hds : ds ≠ [] := by
    cases whole <;> exact List.cons_ne_nil _ _
  rw [unsignedAt]
  simp only [wholeAt_append whole hpoint, List.drop_left,
    fractionAt_append fraction hdigit hfraction,
    fraction.length, exponentAt_append exponent hrest, if_neg hds]

/-- A numeral is read up to its end. -/
theorem numeral?_append (h : IsNumeral n cs) (hrest : Stops rest) :
    numeral? (cs ++ rest) = some (n, cs.length) := by
  cases h with
  | @intro point power whole fraction exponent =>
      obtain ⟨negative, ds, f, x⟩ := n
      have hunsigned := unsignedAt_append negative whole fraction exponent hrest
      cases negative with
      | true =>
          simp only [if_true, List.append_assoc, List.cons_append, List.nil_append]
          rw [numeral?_minus, hunsigned, Option.map_some]
          simp only [List.length_cons, List.length_append, Nat.add_assoc]
      | false =>
          have hhead : (ds ++ (point ++ (power ++ rest))).head? ≠ some '-' := by
            cases whole with
            | zero => simp
            | digits h => exact fun heq => (h.head_not_sign _ _ heq).1 rfl
          simp only [Bool.false_eq_true, if_false, List.nil_append, List.append_assoc]
          rw [numeral?_of_ne hhead, hunsigned]
          simp only [List.length_append, Nat.add_assoc]

theorem exists_of_unsignedAt {negative : Bool} {width : Nat}
    (h : unsignedAt negative cs = some (n, width)) :
    ∃ point power rest, cs = n.whole ++ (point ++ (power ++ rest)) ∧ n.negative = negative ∧
      width = (n.whole ++ (point ++ power)).length ∧ IsWhole n.whole ∧ IsFraction n.fraction point ∧
      IsExponent n.exponent power ∧
      (n.whole ≠ ['0'] → n.fraction = none → n.exponent = none → Stops rest) := by
  rw [unsignedAt] at h
  split at h
  · cases h
  · next hnil =>
      obtain ⟨rest, hcs, hwhole, hdigit⟩ := exists_of_wholeAt hnil
      generalize wholeAt cs = ds at *
      subst hcs
      simp only [List.drop_left] at h
      obtain ⟨point, rest, rfl, hfraction, hlength, hpoint⟩ := exists_of_fractionAt rest
      generalize fractionAt (point ++ rest) = f at *
      rw [← hlength, List.drop_left] at h
      rcases exponentAt_cases rest with ⟨x, power, rest, rfl, hpower, hvalue⟩ | ⟨hvalue, hnone⟩
      · rw [hvalue, Option.some.injEq, Prod.mk.injEq] at h
        obtain ⟨rfl, rfl⟩ := h
        exact ⟨point, power, rest, rfl, rfl, by simp [Nat.add_assoc], hwhole, hfraction, hpower,
          nofun⟩
      · rw [hvalue, Option.some.injEq, Prod.mk.injEq] at h
        obtain ⟨rfl, rfl⟩ := h
        refine ⟨point, [], rest, rfl, rfl, by simp, hwhole, hfraction, .none, fun hne hf _ => ?_⟩
        obtain rfl : f = none := hf
        cases hfraction
        exact ⟨hdigit hne, hpoint rfl, hnone⟩

/-- What is read as a numeral is one. -/
theorem exists_of_numeral? {width : Nat} (h : numeral? cs = some (n, width)) :
    ∃ text rest, cs = text ++ rest ∧ text.length = width ∧ IsNumeral n text ∧
      (n.whole ≠ ['0'] → n.fraction = none → n.exponent = none → Stops rest) := by
  by_cases hminus : cs.head? = some '-'
  · obtain ⟨cs, rfl⟩ := List.head?_eq_some_iff.1 hminus
    rw [numeral?_minus, Option.map_eq_some_iff] at h
    obtain ⟨⟨n, width⟩, hunsigned, heq⟩ := h
    obtain ⟨rfl, rfl⟩ := Prod.mk.inj heq
    obtain ⟨point, power, rest, rfl, hnegative, rfl, hwhole, hfraction, hpower, hstops⟩ :=
      exists_of_unsignedAt hunsigned
    refine ⟨_, rest, ?_, ?_, .intro hwhole hfraction hpower, hstops⟩
    · simp [hnegative]
    · simp [hnegative]
  · rw [numeral?_of_ne hminus] at h
    obtain ⟨point, power, rest, rfl, hnegative, rfl, hwhole, hfraction, hpower, hstops⟩ :=
      exists_of_unsignedAt h
    refine ⟨_, rest, ?_, ?_, .intro hwhole hfraction hpower, hstops⟩
    · simp [hnegative]
    · simp [hnegative]

end Numerals

end OpenApiClient.Json
