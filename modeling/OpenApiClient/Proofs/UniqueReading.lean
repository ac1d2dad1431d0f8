import OpenApiClient.Proofs.Layout

/-!
# Reading expressions back

An expression on one line tells where it ends, if nothing follows it that a read would go on with:
neither a bracket nor a digit.  So the texts of two expressions, whatever stands behind them, are
the same only where the expressions and what stands behind them are.

The first characters tell how an expression is made up, with one exception: a guarded read and what
is left null where it is not there both begin with the guard.  They are told apart by what stands
behind the guard, as only a read begins with a variable.

Null stands for any type that is being built further outside, and its text does not name it:
`unnamed` is what the text tells.
-/

namespace OpenApiClient

namespace Expression

mutual

/-- An expression without the names of the types that it leaves null. -/
def unnamed : Expression → Expression
  | .field read => .field read
  | .construct target arguments => .construct target (unnamedAll arguments)
  | .arrayMap source element body => .arrayMap source element body.unnamed
  | .nullGuard subject body => .nullGuard subject body.unnamed
  | .null _ => .null ""

/-- `unnamed` of every argument. -/
def unnamedAll : List Expression → List Expression
  | [] => []
  | e :: rest => e.unnamed :: unnamedAll rest

end

/-- The ways in which an expression begins. -/
inductive Form where
  | read
  | guard
  | object
  | list
  | null

/-- The first characters of a text of a form. -/
def Form.opening : Form → List Char
  | read => ['$']
  | guard => ['(']
  | object => ['n', 'e']
  | list => ['a']
  | null => ['n', 'u']

/-- The first characters tell the form. -/
theorem Form.eq_of_opening {f f' : Form} {cs cs' : List Char}
    (h : f.opening ++ cs = f'.opening ++ cs') : f = f' := by
  cases f <;> cases f' <;> first | rfl | simp [opening] at h

/-- The form of an expression. -/
def form : Expression → Form
  | .field read => if read.guarded then .guard else .read
  | .construct _ _ => .object
  | .arrayMap _ _ _ => .list
  | .nullGuard _ _ => .guard
  | .null _ => .null

end Expression

namespace Php

open Text

variable {bodyDepth : Nat} {rest rest' : List Char}

/-- A row of characters of one class ends where a character of another class follows. -/
theorem row_append_inj {p : Char → Bool} {cs cs' : List Char} (hcs : ∀ c ∈ cs, p c = true)
    (hcs' : ∀ c ∈ cs', p c = true) (hrest : rest.head?.any p = false)
    (hrest' : rest'.head?.any p = false) (h : cs ++ rest = cs' ++ rest') :
    cs = cs' ∧ rest = rest' := by
  have htake {cs rest : List Char} (hcs : ∀ c ∈ cs, p c = true)
      (hrest : rest.head?.any p = false) : (cs ++ rest).takeWhile p = cs := by
    rw [List.takeWhile_append_of_pos hcs]
    cases rest with
    | nil => rw [List.takeWhile_nil, List.append_nil]
    | cons c rest =>
        have hc : p c = false := by simpa using hrest
        rw [List.takeWhile_cons_of_neg (by simp [hc]), List.append_nil]
  have heq : cs = cs' := by rw [← htake hcs hrest, h, htake hcs' hrest']
  subst heq
  exact ⟨rfl, List.append_cancel_left h⟩

/-- A literal ends at its closing quote. -/
theorem encode_append_inj {cs cs' : List Char}
    (h : encode cs ++ '\'' :: rest = encode cs' ++ '\'' :: rest') : cs = cs' ∧ rest = rest' := by
  have hread := congrArg decode? h
  rw [decode?_encode, decode?_encode] at hread
  exact Prod.mk.inj (Option.some.inj hread)

/-- What may stand behind an expression: no read goes on with it. -/
def Follows (rest : List Char) : Prop := ∀ c ∈ rest.head?, c ≠ '[' ∧ c.isDigit = false

theorem follows_cons {c : Char} (hc : c ≠ '[' ∧ c.isDigit = false) (rest : List Char) :
    Follows (c :: rest) := by
  intro x hx
  obtain rfl : c = x := by simpa using hx
  exact hc

/-- Where no digit follows, a variable is told by its name. -/
theorem variableOf_append_inj {b b' : Binding} (hb : b.IsOf bodyDepth) (hb' : b'.IsOf bodyDepth)
    (hrest : rest.head?.any Char.isDigit = false) (hrest' : rest'.head?.any Char.isDigit = false)
    (h : (variableOf b).toList ++ rest = (variableOf b').toList ++ rest') :
    b = b' ∧ rest = rest' := by
  have helement (depth : Nat) (rest : List Char) : (variableOf (.element depth)).toList ++ rest =
      "$element".toList ++ ((toString depth).toList ++ rest) := by
    rw [variableOf, String.toList_append, List.append_assoc]
  cases b with
  | body depth =>
      cases b' with
      | body depth' =>
          obtain rfl : depth = depth' := hb.trans hb'.symm
          exact ⟨rfl, List.append_cancel_left h⟩
      | element depth' =>
          simp [variableOf] at h
  | element depth =>
      cases b' with
      | body depth' =>
          simp [variableOf] at h
      | element depth' =>
          rw [helement, helement] at h
          obtain ⟨heq, hrest⟩ := row_append_inj (isDigit_of_mem_toString depth)
            (isDigit_of_mem_toString depth') hrest hrest' (List.append_cancel_left h)
          rw [Nat.toString_eq_repr, Nat.toString_eq_repr, Nat.toList_repr, Nat.toList_repr] at heq
          have hdepth := congrArg (Nat.ofDigitChars 10 · 0) heq
          simp only [Nat.ofDigitChars_ten_toDigits] at hdepth
          exact ⟨congrArg Binding.element hdepth, hrest⟩

/-- The keys of a read, each in brackets. -/
def keysOf (path : List String) : String := join "" (path.map fun key => "[" ++ quote key ++ "]")

theorem keysOf_cons_append (key : String) (path : List String) (rest : List Char) :
    (keysOf (key :: path)).toList ++ rest =
      '[' :: '\'' :: (encode key.toList ++ '\'' :: ']' :: ((keysOf path).toList ++ rest)) := by
  rw [keysOf, List.map_cons, join_empty_cons, ← keysOf]
  simp [quote]

/-- Where no bracket follows, the keys of a read are told by their text. -/
theorem keysOf_append_inj {path path' : List String} (hrest : '[' ∉ rest.head?)
    (hrest' : '[' ∉ rest'.head?)
    (h : (keysOf path).toList ++ rest = (keysOf path').toList ++ rest') :
    path = path' ∧ rest = rest' := by
  induction path generalizing path' with
  | nil =>
      cases path' with
      | nil => exact ⟨rfl, h⟩
      | cons key path' =>
          rw [keysOf_cons_append] at h
          have hhead : rest = _ := h
          rw [hhead] at hrest
          exact absurd rfl hrest
  | cons key path ih =>
      cases path' with
      | nil =>
          rw [keysOf_cons_append] at h
          have hhead : _ = rest' := h
          rw [← hhead] at hrest'
          exact absurd rfl hrest'
      | cons key' path' =>
          rw [keysOf_cons_append, keysOf_cons_append] at h
          obtain ⟨hkey, h⟩ := encode_append_inj (List.cons.inj (List.cons.inj h).2).2
          obtain ⟨hpath, hrest⟩ := ih (List.cons.inj h).2
          exact ⟨congrArg₂ List.cons (String.toList_inj.1 hkey) hpath, hrest⟩

/-- A read is told by its text. -/
theorem accessOf_append_inj {b b' : Binding} {path path' : List String} {guarded guarded' : Bool}
    (hb : b.IsOf bodyDepth) (hb' : b'.IsOf bodyDepth) (hrest : Follows rest)
    (hrest' : Follows rest')
    (h : (accessOf ⟨b, path, guarded⟩).toList ++ rest =
      (accessOf ⟨b', path', guarded'⟩).toList ++ rest') :
    b = b' ∧ path = path' ∧ rest = rest' := by
  have haccess (b : Binding) (path : List String) (guarded : Bool) (rest : List Char) :
      (accessOf ⟨b, path, guarded⟩).toList ++ rest =
        (variableOf b).toList ++ ((keysOf path).toList ++ rest) := by
    rw [accessOf, ← keysOf, String.toList_append, List.append_assoc]
  -- A key begins with a bracket, so no digit stands behind the variable.
  have hkeys {rest : List Char} (path : List String) (hrest : Follows rest) :
      ((keysOf path).toList ++ rest).head?.any Char.isDigit = false := by
    cases path with
    | nil =>
        cases rest with
        | nil => rfl
        | cons c rest => exact (hrest c rfl).2
    | cons key path =>
        rw [keysOf_cons_append]
        rfl
  have hbracket {rest : List Char} (hrest : Follows rest) : '[' ∉ rest.head? :=
    fun hmem => (hrest '[' hmem).1 rfl
  rw [haccess, haccess] at h
  obtain ⟨hbinding, h⟩ := variableOf_append_inj hb hb' (hkeys path hrest) (hkeys path' hrest') h
  exact ⟨hbinding, keysOf_append_inj (hbracket hrest) (hbracket hrest') h⟩

theorem follows_append {s : String} {c : Char} (hs : s.toList.head? = some c)
    (hc : c ≠ '[' ∧ c.isDigit = false) (rest : List Char) : Follows (s.toList ++ rest) := by
  intro x hx
  rw [List.head?_append, hs] at hx
  obtain rfl : c = x := by simpa using hx
  exact hc

/-- A guard is told by its text, and what it guards stands in the same place. -/
theorem whereSet_append_inj {b b' : Binding} {path path' : List String} {guarded guarded' : Bool}
    {s s' : String} (hb : b.IsOf bodyDepth) (hb' : b'.IsOf bodyDepth)
    (h : (whereSet (accessOf ⟨b, path, guarded⟩) s).toList ++ rest =
      (whereSet (accessOf ⟨b', path', guarded'⟩) s').toList ++ rest') :
    b = b' ∧ path = path' ∧
      s.toList ++ (" : null)".toList ++ rest) = s'.toList ++ (" : null)".toList ++ rest') := by
  have htext (subject value : String) (rest : List Char) :
      (whereSet subject value).toList ++ rest = "(isset(".toList ++
        (subject.toList ++ (") ? ".toList ++ (value.toList ++ (" : null)".toList ++ rest)))) := by
    simp only [whereSet, String.toList_append, List.append_assoc]
  have hfollows (rest : List Char) : Follows (") ? ".toList ++ rest) :=
    follows_append rfl (by decide) rest
  rw [htext, htext] at h
  obtain ⟨hbinding, hpath, h⟩ :=
    accessOf_append_inj hb hb' (hfollows _) (hfollows _) (List.append_cancel_left h)
  exact ⟨hbinding, hpath, List.append_cancel_left h⟩

/-- The text of an expression begins with the opening of its form. -/
theorem exists_opening {e : Expression} (h : e.Shaped bodyDepth) :
    ∃ cs, (oneLine e).toList = e.form.opening ++ cs := by
  have hguard (s t : String) : ∃ cs, (whereSet s t).toList = '(' :: cs := by simp [whereSet]
  cases h with
  | @read b path _ =>
      have hread : ∃ cs, (accessOf ⟨b, path, false⟩).toList = '$' :: cs := by
        cases b <;> simp [accessOf, variableOf]
      exact hread
  | guardedRead _ hpath =>
      rw [oneLine_field, if_pos (by simpa using hpath)]
      exact hguard _ _
  | construct =>
      rw [oneLine_construct]
      simp [Expression.form, Expression.Form.opening]
  | arrayMap =>
      rw [oneLine_arrayMap]
      simp [Expression.form, Expression.Form.opening]
  | nullGuard => exact hguard _ _
  | null =>
      rw [oneLine_null]
      simp [Expression.form, Expression.Form.opening]

theorem form_eq_of_append {e e' : Expression} (h : e.Shaped bodyDepth) (h' : e'.Shaped bodyDepth)
    (heq : (oneLine e).toList ++ rest = (oneLine e').toList ++ rest') : e.form = e'.form := by
  obtain ⟨cs, hcs⟩ := exists_opening h
  obtain ⟨cs', hcs'⟩ := exists_opening h'
  rw [hcs, hcs', List.append_assoc, List.append_assoc] at heq
  exact Expression.Form.eq_of_opening heq

/-- The text of an expression tells it apart from every other one, whatever stands behind them. -/
def Determined (bodyDepth : Nat) (e : Expression) : Prop :=
  ∀ {e' : Expression} {rest rest' : List Char}, e'.Shaped bodyDepth → Follows rest →
    Follows rest' → (oneLine e).toList ++ rest = (oneLine e').toList ++ rest' →
      e.unnamed = e'.unnamed ∧ rest = rest'

/-- Arguments end at the closing parenthesis. -/
theorem Determined.arguments {es es' : List Expression} (h : ∀ e ∈ es, Determined bodyDepth e)
    (h' : ∀ e ∈ es', e.Shaped bodyDepth)
    (heq : (oneLineAll es).toList ++ ')' :: rest = (oneLineAll es').toList ++ ')' :: rest') :
    Expression.unnamedAll es = Expression.unnamedAll es' ∧ rest = rest' := by
  have hcons (e : Expression) (es : List Expression) (rest : List Char) :
      (oneLineAll (e :: es)).toList ++ rest =
        ',' :: ((oneLine e).toList ++ ((oneLineAll es).toList ++ rest)) := by
    simp [oneLineAll_cons]
  have hfollows (es : List Expression) (rest : List Char) :
      Follows ((oneLineAll es).toList ++ ')' :: rest) := by
    cases es with
    | nil => exact follows_cons (by decide) rest
    | cons e es =>
        rw [hcons]
        exact follows_cons (by decide) _
  induction es generalizing es' with
  | nil =>
      cases es' with
      | nil => exact ⟨rfl, (List.cons.inj heq).2⟩
      | cons e' es' =>
          rw [hcons] at heq
          exact absurd (List.cons.inj heq).1 (by decide)
  | cons e es ih =>
      cases es' with
      | nil =>
          rw [hcons] at heq
          exact absurd (List.cons.inj heq).1 (by decide)
      | cons e' es' =>
          obtain ⟨he, hes⟩ := List.forall_mem_cons.1 h
          obtain ⟨he', hes'⟩ := List.forall_mem_cons.1 h'
          rw [hcons, hcons] at heq
          obtain ⟨hunnamed, heq⟩ :=
            he he' (hfollows es rest) (hfollows es' rest') (List.cons.inj heq).2
          obtain ⟨hall, hrest⟩ := ih hes hes' heq
          exact ⟨congrArg₂ List.cons hunnamed hall, hrest⟩

theorem determined_read {b : Binding} {path : List String} (hb : b.IsOf bodyDepth) :
    Determined bodyDepth (.field ⟨b, path, false⟩) := by
  intro e' rest rest' h' hrest hrest' heq
  have hform := form_eq_of_append (.read hb) h' heq
  cases h' with
  | read hb' =>
      obtain ⟨rfl, rfl, hrests⟩ := accessOf_append_inj hb hb' hrest hrest' heq
      exact ⟨rfl, hrests⟩
  | _ => cases hform

/-- What is guarded and is no field does not begin as a read does. -/
theorem accessOf_append_ne {b : Binding} {path : List String} {guarded : Bool} {body : Expression}
    (hb : b.IsOf bodyDepth) (hbody : body.Shaped bodyDepth) (hfield : ∀ read, body ≠ .field read) :
    (accessOf ⟨b, path, guarded⟩).toList ++ rest ≠ (oneLine body).toList ++ rest' := by
  intro heq
  have hread : Expression.Shaped bodyDepth (.field ⟨b, path, false⟩) := .read hb
  have hform := form_eq_of_append hread hbody heq
  cases hbody with
  | read => exact hfield _ rfl
  | guardedRead => exact hfield _ rfl
  | _ => cases hform

theorem oneLine_guardedRead {b : Binding} {path : List String} (hpath : path ≠ []) :
    oneLine (.field ⟨b, path, true⟩) =
      whereSet (accessOf ⟨b, path, true⟩) (accessOf ⟨b, path, true⟩) := by
  rw [oneLine_field, if_pos (by simpa using hpath)]

theorem determined_guardedRead {b : Binding} {path : List String} (hb : b.IsOf bodyDepth)
    (hpath : path ≠ []) : Determined bodyDepth (.field ⟨b, path, true⟩) := by
  intro e' rest rest' h' _ _ heq
  have hform := form_eq_of_append (.guardedRead hb hpath) h' heq
  rw [oneLine_guardedRead hpath] at heq
  cases h' with
  | guardedRead hb' hpath' =>
      rw [oneLine_guardedRead hpath'] at heq
      obtain ⟨rfl, rfl, hguarded⟩ := whereSet_append_inj hb hb' heq
      exact ⟨rfl, List.append_cancel_left (List.append_cancel_left hguarded)⟩
  | nullGuard hb' hbody' hfield' =>
      obtain ⟨-, -, hguarded⟩ := whereSet_append_inj hb hb' heq
      exact absurd hguarded (accessOf_append_ne hb hbody' hfield')
  | _ => cases hform

theorem determined_construct {target : String} {arguments : List Expression}
    (htarget : Name.IsPlain target) (harguments : ∀ e ∈ arguments, e.Shaped bodyDepth)
    (h : ∀ e ∈ arguments, Determined bodyDepth e) :
    Determined bodyDepth (.construct target arguments) := by
  intro e' rest rest' h' _ _ heq
  have hform := form_eq_of_append (.construct htarget harguments) h' heq
  have htext (target : String) (arguments : List Expression) (rest : List Char) :
      (oneLine (.construct target arguments)).toList ++ rest =
        "new ".toList ++ (target.toList ++ ("($this->apiClient".toList ++
          ((oneLineAll arguments).toList ++ ')' :: rest))) := by
    simp [oneLine_construct]
  have hparen (rest : List Char) :
      ("($this->apiClient".toList ++ rest).head?.any Name.isNameChar = false := rfl
  cases h' with
  | construct htarget' harguments' =>
      rw [htext, htext] at heq
      obtain ⟨hname, hrest⟩ := row_append_inj htarget htarget' (hparen _) (hparen _)
        (List.append_cancel_left heq)
      obtain ⟨hall, hrests⟩ := Determined.arguments h harguments' (List.append_cancel_left hrest)
      exact ⟨congrArg₂ Expression.construct (String.toList_inj.1 hname) hall, hrests⟩
  | _ => cases hform

theorem determined_arrayMap {b element : Binding} {path : List String} {body : Expression}
    (hb : b.IsOf bodyDepth) (helement : element.IsOf bodyDepth) (hbody : body.Shaped bodyDepth)
    (h : Determined bodyDepth body) :
    Determined bodyDepth (.arrayMap ⟨b, path, false⟩ element body) := by
  intro e' rest rest' h' _ _ heq
  have hform := form_eq_of_append (.arrayMap hb helement hbody) h' heq
  have htext (b element : Binding) (path : List String) (body : Expression) (rest : List Char) :
      (oneLine (.arrayMap ⟨b, path, false⟩ element body)).toList ++ rest =
        "array_map(function (".toList ++ ((variableOf element).toList ++
          (") \x7breturn ".toList ++ ((oneLine body).toList ++ (";\x7d, ".toList ++
            ((accessOf ⟨b, path, false⟩).toList ++ (")".toList ++ rest)))))) := by
    simp [oneLine_arrayMap]
  have hreturn (rest : List Char) :
      (") \x7breturn ".toList ++ rest).head?.any Char.isDigit = false := rfl
  have hend (rest : List Char) : Follows (";\x7d, ".toList ++ rest) :=
    follows_append rfl (by decide) rest
  have hparen (rest : List Char) : Follows (")".toList ++ rest) :=
    follows_append rfl (by decide) rest
  cases h' with
  | arrayMap hb' helement' hbody' =>
      rw [htext, htext] at heq
      obtain ⟨rfl, hrest⟩ := variableOf_append_inj helement helement' (hreturn _) (hreturn _)
        (List.append_cancel_left heq)
      obtain ⟨hunnamed, hsource⟩ := h hbody' (hend _) (hend _) (List.append_cancel_left hrest)
      obtain ⟨rfl, rfl, hrests⟩ := accessOf_append_inj hb hb' (hparen _) (hparen _)
        (List.append_cancel_left hsource)
      exact ⟨congrArg (Expression.arrayMap _ _) hunnamed, List.append_cancel_left hrests⟩
  | _ => cases hform

theorem determined_nullGuard {b : Binding} {path : List String} {body : Expression}
    (hb : b.IsOf bodyDepth) (hbody : body.Shaped bodyDepth) (hfield : ∀ read, body ≠ .field read)
    (h : Determined bodyDepth body) : Determined bodyDepth (.nullGuard ⟨b, path, false⟩ body) := by
  intro e' rest rest' h' _ _ heq
  have hform := form_eq_of_append (.nullGuard hb hbody hfield) h' heq
  have hend (rest : List Char) : Follows (" : null)".toList ++ rest) :=
    follows_append rfl (by decide) rest
  rw [oneLine_nullGuard] at heq
  cases h' with
  | guardedRead hb' hpath' =>
      rw [oneLine_guardedRead hpath'] at heq
      obtain ⟨-, -, hguarded⟩ := whereSet_append_inj hb hb' heq
      exact absurd hguarded.symm (accessOf_append_ne hb' hbody hfield)
  | nullGuard hb' hbody' hfield' =>
      rw [oneLine_nullGuard] at heq
      obtain ⟨rfl, rfl, hguarded⟩ := whereSet_append_inj hb hb' heq
      obtain ⟨hunnamed, hrests⟩ := h hbody' (hend _) (hend _) hguarded
      exact ⟨congrArg (Expression.nullGuard _) hunnamed, List.append_cancel_left hrests⟩
  | _ => cases hform

theorem determined_null (name : String) : Determined bodyDepth (.null name) := by
  intro e' rest rest' h' _ _ heq
  have hform := form_eq_of_append .null h' heq
  cases h' with
  | null => exact ⟨rfl, List.append_cancel_left heq⟩
  | _ => cases hform

/-- Every expression is told by its text. -/
theorem determined {e : Expression} (h : e.Shaped bodyDepth) : Determined bodyDepth e := by
  induction h with
  | read hb => exact determined_read hb
  | guardedRead hb hpath => exact determined_guardedRead hb hpath
  | construct htarget harguments ih => exact determined_construct htarget harguments ih
  | arrayMap hb helement hbody ih => exact determined_arrayMap hb helement hbody ih
  | nullGuard hb hbody hfield ih => exact determined_nullGuard hb hbody hfield ih
  | null => exact determined_null _

mutual

/-- The names of the types that are left null are not written. -/
theorem oneLine_unnamed : ∀ e : Expression, oneLine e.unnamed = oneLine e
  | .field _ => rfl
  | .construct target arguments => by
      rw [Expression.unnamed, oneLine_construct, oneLineAll_unnamed arguments, ← oneLine_construct]
  | .arrayMap source element body => by
      rw [Expression.unnamed, oneLine_arrayMap, oneLine_unnamed body, ← oneLine_arrayMap]
  | .nullGuard subject body => by
      rw [Expression.unnamed, oneLine_nullGuard, oneLine_unnamed body, ← oneLine_nullGuard]
  | .null _ => rfl

theorem oneLineAll_unnamed :
    ∀ es : List Expression, oneLineAll (Expression.unnamedAll es) = oneLineAll es
  | [] => rfl
  | e :: rest => by
      rw [Expression.unnamedAll, oneLineAll_cons, oneLine_unnamed e, oneLineAll_unnamed rest,
        ← oneLineAll_cons]

end

/-- The texts of two expressions are the same, up to their layout, exactly if the expressions are,
up to the names of the types that they leave null. -/
theorem withoutLayout_eq_iff {e e' : Expression} (h : e.Shaped bodyDepth)
    (h' : e'.Shaped bodyDepth) (depth depth' : Nat) :
    withoutLayout (expression depth e) = withoutLayout (expression depth' e') ↔
      e.unnamed = e'.unnamed := by
  rw [withoutLayout_expression h, withoutLayout_expression h']
  constructor
  · intro heq
    have hnil : Follows [] := nofun
    refine (determined h h' hnil hnil ?_).1
    rw [heq]
  · intro heq
    rw [← oneLine_unnamed e, heq, oneLine_unnamed]

/-- Where two expressions that are synthesized have the same text at a depth, they are the same up
to the names of the types that they leave null; and the texts of an expression at two depths differ
in nothing but their layout. -/
theorem expression_unambiguous {e e' : Expression} (h : e.Synthesized bodyDepth)
    (h' : e'.Synthesized bodyDepth) :
    (∀ depth, expression depth e = expression depth e' → e.unnamed = e'.unnamed) ∧
      ∀ depth depth', withoutLayout (expression depth e) = withoutLayout (expression depth' e) := by
  constructor
  · intro depth heq
    refine (withoutLayout_eq_iff h.shaped h'.shaped depth depth).1 ?_
    rw [heq]
  · intro depth depth'
    exact (withoutLayout_eq_iff h.shaped h.shaped depth depth').2 rfl

/-- An owner has a pet, which has a name and kin. -/
def kinship (kin : String) : Registry := ⟨[
  { name := "Owner", properties := [{ name := "pet", type := "Pet", required := true }] },
  { name := "Pet", properties := [
    { name := "owner's\n name for it", type := "string" },
    { name := "kin", type := kin }] }]⟩

/-- Kin of an owner's pet that is a pet, or the owner, is left null, and the text does not say
which.  The line break in a key is none of the layout. -/
theorem expression_unambiguous_kinship :
    ∃ e e', Expression.ofResponse (kinship "Pet") "Owner" false = e ∧
      Expression.ofResponse (kinship "Owner") "Owner" false = e' ∧ e ≠ e' ∧
      expression 2 e = expression 2 e' ∧ e.unnamed = e'.unnamed ∧
      withoutLayout (expression 2 e) = withoutLayout (expression 0 e) := by
  let owner (kin : String) : Expression := .construct "Owner" [.construct "Pet" [
    .field ⟨.response, ["pet", "owner's\n name for it"], true⟩, .null kin]]
  have hpet : Expression.ofResponse (kinship "Pet") "Owner" false = owner "Pet" := by cbv
  have howner : Expression.ofResponse (kinship "Owner") "Owner" false = owner "Owner" := by cbv
  have h : (owner "Pet").Synthesized 0 :=
    ⟨kinship "Pet", "Owner", false, .response, [], [], by decide, rfl, hpet.symm⟩
  have h' : (owner "Owner").Synthesized 0 :=
    ⟨kinship "Owner", "Owner", false, .response, [], [], by decide, rfl, howner.symm⟩
  obtain ⟨hequal, hlayout⟩ := expression_unambiguous h h'
  have htext : expression 2 (owner "Pet") = expression 2 (owner "Owner") := rfl
  refine ⟨owner "Pet", owner "Owner", hpet, howner, ?_, htext, hequal 2 htext, hlayout 2 0⟩
  simp [owner]

end Php

end OpenApiClient
