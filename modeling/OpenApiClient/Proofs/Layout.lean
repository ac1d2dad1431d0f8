import OpenApiClient.Name
import OpenApiClient.Php.Expression
import OpenApiClient.Proofs.Agreement

/-!
# The layout of expressions

Constructor calls and walks through lists go on over several lines of text.  `withoutLayout` takes
the line breaks and the space at the start of each line out of a text, except inside literals, where
they belong to a key; it reads the text a character at a time and needs to know only what it is in
the middle of.

What is left of an expression is `oneLine`, which has no depth in it.  This holds of expressions as
they are synthesized for entities with plain names: `Shaped` says what such an expression looks
like.
-/

namespace OpenApiClient

/-- The bindings where the response body has a depth: this body, and the elements of all lists.
There is one response body and one variable for it, which does not name the depth. -/
def Binding.IsOf (bodyDepth : Nat) : Binding → Prop
  | .body depth => depth = bodyDepth
  | .element _ => True

theorem Binding.isOf_inner (b : Binding) (bodyDepth : Nat) : b.inner.IsOf bodyDepth := trivial

/-- A name of ASCII letters, digits and underscores. -/
def Name.IsPlain (name : String) : Prop := ∀ c ∈ name.toList, isNameChar c = true

instance (name : String) : Decidable (Name.IsPlain name) :=
  decidable_of_iff (name.toList.all Name.isNameChar = true) List.all_eq_true

namespace Expression

variable {bodyDepth : Nat} {r : Registry} {ancestry : List String} {type : String} {p : Property}
  {binding : Binding} {path : List String}

/-- What an expression looks like that builds entities with plain names.  What is left null where it
is not there is never a field, as a field has a guard of its own. -/
inductive Shaped (bodyDepth : Nat) : Expression → Prop
  | read {binding : Binding} {path : List String} (hbinding : binding.IsOf bodyDepth) :
      Shaped bodyDepth (.field ⟨binding, path, false⟩)
  | guardedRead {binding : Binding} {path : List String} (hbinding : binding.IsOf bodyDepth)
      (hpath : path ≠ []) : Shaped bodyDepth (.field ⟨binding, path, true⟩)
  | construct {target : String} {arguments : List Expression} (htarget : Name.IsPlain target)
      (harguments : ∀ e ∈ arguments, Shaped bodyDepth e) :
      Shaped bodyDepth (.construct target arguments)
  | arrayMap {binding element : Binding} {path : List String} {body : Expression}
      (hbinding : binding.IsOf bodyDepth) (helement : element.IsOf bodyDepth)
      (hbody : Shaped bodyDepth body) :
      Shaped bodyDepth (.arrayMap ⟨binding, path, false⟩ element body)
  | nullGuard {binding : Binding} {path : List String} {body : Expression}
      (hbinding : binding.IsOf bodyDepth) (hbody : Shaped bodyDepth body)
      (hfield : ∀ read, body ≠ .field read) :
      Shaped bodyDepth (.nullGuard ⟨binding, path, false⟩ body)
  | null {name : String} : Shaped bodyDepth (.null name)

/-- The expressions that can be synthesized for a type with a plain name by registries with plain
names, from any binding and any place, inside any types.  The response body is at one depth, which
is `0` where a response is read. -/
def Synthesized (bodyDepth : Nat) (e : Expression) : Prop :=
  ∃ (r : Registry) (type : String) (isArray : Bool) (binding : Binding)
    (path ancestry : List String),
    (∀ name ∈ type :: r.names, Name.IsPlain name) ∧ binding.IsOf bodyDepth ∧
      e = synthesize r type isArray binding path ancestry

/-- What may be left null is shaped if it is no field. -/
theorem Shaped.unlessRequired {e : Expression} (h : Shaped bodyDepth e)
    (hbinding : binding.IsOf bodyDepth) (hfield : ∀ read, e ≠ .field read) :
    Shaped bodyDepth (unlessRequired p binding path e) := by
  unfold Expression.unlessRequired
  split
  · exact h
  · exact .nullGuard hbinding h hfield

theorem ofType_ne_field (read : FieldRead) :
    ofType r ancestry type binding path ≠ .field read := by
  intro heq
  have htype := type?_ofType r ancestry type binding path
  rw [heq] at htype
  cases htype

/-- An argument is shaped if the expression for the entity of its property is. -/
theorem shaped_ofProperty (hpath : path ≠ []) (hbinding : binding.IsOf bodyDepth)
    (hnested : ∀ inner, (r.shape p).type? = some inner → inner ∉ ancestry →
      ∀ (binding : Binding) (path : List String), binding.IsOf bodyDepth →
        Shaped bodyDepth (ofType r ancestry inner binding path)) :
    Shaped bodyDepth (ofProperty r ancestry p binding path) := by
  rw [ofProperty_eq]
  cases hs : r.shape p with
  | plain =>
      cases p.required with
      | true => exact .read hbinding
      | false => exact .guardedRead hbinding hpath
  | entity inner =>
      dsimp only
      split
      · exact .null
      · next hin =>
          have he := hnested inner (by rw [hs]; rfl) (by simpa using hin) binding path hbinding
          exact he.unlessRequired hbinding ofType_ne_field
  | entities inner =>
      dsimp only
      split
      · exact .null
      · next hin =>
          have helement := binding.isOf_inner bodyDepth
          have he := hnested inner (by rw [hs]; rfl) (by simpa using hin) binding.inner [] helement
          exact (Shaped.arrayMap hbinding helement he).unlessRequired hbinding
            fun read heq => by cases heq

theorem shaped_ofType (hnames : ∀ name ∈ r.names, Name.IsPlain name) (htype : Name.IsPlain type)
    (hbinding : binding.IsOf bodyDepth) :
    Shaped bodyDepth (ofType r ancestry type binding path) := by
  induction ancestry, type using nested_induction (r := r) generalizing binding path with
  | h ancestry type ih =>
      by_cases hin : type ∈ ancestry
      · rw [ofType, dif_pos (by simpa using hin)]
        exact .null
      · rw [ofType_eq hin]
        refine .construct htype fun e he => ?_
        obtain ⟨p, hp, rfl⟩ := List.mem_map.1 he
        refine shaped_ofProperty (by simp) hbinding fun inner hs hnew binding path hbinding => ?_
        have hinner := (r.contains_iff_mem_names inner).1 (Registry.contains_of_type?_shape hs)
        exact ih hin p hp inner hs hnew (hnames inner hinner) hbinding

theorem Synthesized.shaped {e : Expression} (h : Synthesized bodyDepth e) : Shaped bodyDepth e := by
  obtain ⟨r, type, isArray, binding, path, ancestry, hnames, hbinding, rfl⟩ := h
  obtain ⟨htype, hnames⟩ := List.forall_mem_cons.1 hnames
  unfold synthesize
  split
  · have helement := binding.isOf_inner bodyDepth
    exact .arrayMap hbinding helement (shaped_ofType hnames htype helement)
  · exact shaped_ofType hnames htype hbinding

end Expression

namespace Php

open Text

/-- What a reader of a text is in the middle of: code, the space at the start of a line, a literal,
or two characters of a literal that stand for one. -/
inductive Spot where
  | code
  | margin
  | literal
  | escape

namespace Spot

/-- Whether a character is layout. -/
def isLayout : Spot → Char → Bool
  | code, c => c = '\n'
  | margin, c => c = '\n' || c = ' '
  | literal, _ => false
  | escape, _ => false

/-- What the reader is in the middle of after a character. -/
def after : Spot → Char → Spot
  | literal, c => if c = '\'' then code else if c = '\\' then escape else literal
  | escape, _ => literal
  | spot, c => if c = '\'' then literal else if spot.isLayout c then margin else code

end Spot

/-- The characters of a text that are not layout. -/
def unlaid : Spot → List Char → List Char
  | _, [] => []
  | spot, c :: cs =>
    if spot.isLayout c then unlaid (spot.after c) cs else c :: unlaid (spot.after c) cs

/-- A text without line breaks and without the space at the start of its lines, literals being left
as they are. -/
def withoutLayout (s : String) : String := String.ofList (unlaid .code s.toList)

theorem unlaid_margin_cons {c : Char} (hc : c ≠ ' ') (cs : List Char) :
    unlaid .margin (c :: cs) = unlaid .code (c :: cs) := by
  simp [unlaid, Spot.isLayout, Spot.after, hc]

theorem unlaid_margin_replicate (n : Nat) (cs : List Char) :
    unlaid .margin (List.replicate n ' ' ++ cs) = unlaid .margin cs := by
  induction n with
  | zero => rfl
  | succ n ih =>
      rw [List.replicate_succ, List.cons_append, unlaid]
      exact ih

/-- Characters that neither begin a literal nor end a line. -/
def isInline (c : Char) : Bool := c ≠ '\'' && c ≠ '\n'

/-- Code without literals and line breaks has no layout. -/
theorem unlaid_code_append {cs : List Char} (h : cs.all isInline = true) (rest : List Char) :
    unlaid .code (cs ++ rest) = cs ++ unlaid .code rest := by
  induction cs with
  | nil => rfl
  | cons c cs ih =>
      rw [List.all_cons, Bool.and_eq_true] at h
      obtain ⟨hquote, hbreak⟩ : c ≠ '\'' ∧ c ≠ '\n' := by simpa [isInline] using h.1
      simp [unlaid, Spot.isLayout, Spot.after, hquote, hbreak, ih h.2]

/-- A literal is left as it is, up to its closing quote. -/
theorem unlaid_literal_append (cs rest : List Char) :
    unlaid .literal (encode cs ++ '\'' :: rest) = encode cs ++ '\'' :: unlaid .code rest := by
  induction cs with
  | nil => rfl
  | cons c cs ih =>
      rw [encode, List.flatMap_cons, ← encode, List.append_assoc, List.append_assoc, ← ih]
      unfold escapeChar
      split
      · rfl
      · next hc =>
          obtain ⟨hbackslash, hquote⟩ : c ≠ '\\' ∧ c ≠ '\'' := by simpa using hc
          simp [unlaid, Spot.isLayout, Spot.after, hbackslash, hquote]

/-- A text starts with something else than a space. -/
def StartsVisibly (s : String) : Prop := s.toList.head?.any (· ≠ ' ') = true

theorem StartsVisibly.exists_cons {s : String} (h : StartsVisibly s) :
    ∃ c cs, s.toList = c :: cs ∧ c ≠ ' ' := by
  unfold StartsVisibly at h
  cases hcs : s.toList with
  | nil =>
      rw [hcs] at h
      cases h
  | cons c cs => exact ⟨c, cs, rfl, by simpa [hcs] using h⟩

theorem StartsVisibly.append {s : String} (h : StartsVisibly s) (t : String) :
    StartsVisibly (s ++ t) := by
  obtain ⟨c, cs, hcs, hc⟩ := h.exists_cons
  simpa [StartsVisibly, hcs] using hc

/-- A text in the middle of code is another one with layout, and leads back to code. -/
def Flattens (s s' : String) : Prop :=
  ∀ rest, unlaid .code (s.toList ++ rest) = s'.toList ++ unlaid .code rest

namespace Flattens

variable {s s' t t' : String}

theorem withoutLayout_eq (h : Flattens s s') : withoutLayout s = s' := by
  have hnil := h []
  rw [List.append_nil] at hnil
  rw [withoutLayout, hnil, unlaid, List.append_nil, String.ofList_toList]

theorem append (h : Flattens s s') (ht : Flattens t t') : Flattens (s ++ t) (s' ++ t') := by
  intro rest
  rw [String.toList_append, String.toList_append, List.append_assoc, h, ht, List.append_assoc]

theorem of_inline (h : s.toList.all isInline = true) : Flattens s s :=
  unlaid_code_append h

theorem of_forall_mem {p : Char → Bool} (hs : ∀ c ∈ s.toList, p c = true)
    (hquote : p '\'' = false) (hbreak : p '\n' = false) : Flattens s s := by
  refine .of_inline (List.all_eq_true.2 fun c hc => ?_)
  have hchar := hs c hc
  have hne {x : Char} (hx : p x = false) : c ≠ x := by
    rintro rfl
    rw [hchar] at hx
    cases hx
  simpa [isInline] using And.intro (hne hquote) (hne hbreak)

theorem quote (s : String) : Flattens (quote s) (quote s) := by
  intro rest
  have hcons (rest : List Char) :
      (Php.quote s).toList ++ rest = '\'' :: (encode s.toList ++ '\'' :: rest) := by
    rw [Php.quote, String.toList_ofList, List.append_assoc]
    rfl
  rw [hcons, hcons, ← unlaid_literal_append]
  rfl

/-- A line break and the space after it are layout where something visible follows. -/
theorem line (h : Flattens s s') (hs : StartsVisibly s) (depth : Nat) :
    Flattens ("\n" ++ (indentation depth ++ s)) s' := by
  intro rest
  obtain ⟨c, cs, hcs, hc⟩ := hs.exists_cons
  have htext : ("\n" ++ (indentation depth ++ s)).toList ++ rest =
      '\n' :: (List.replicate (4 * depth) ' ' ++ c :: (cs ++ rest)) := by
    simp [indentation, hcs]
  calc unlaid .code (("\n" ++ (indentation depth ++ s)).toList ++ rest)
      = unlaid .margin (List.replicate (4 * depth) ' ' ++ c :: (cs ++ rest)) := by
        rw [htext]
        rfl
    _ = unlaid .code (s.toList ++ rest) := by
        rw [unlaid_margin_replicate, unlaid_margin_cons hc, hcs]
        rfl
    _ = s'.toList ++ unlaid .code rest := h rest

theorem whereSet (hs : Flattens s s') (ht : Flattens t t') :
    Flattens (whereSet s t) (whereSet s' t') := by
  have hopen : Flattens "(isset(" "(isset(" := .of_inline rfl
  have hthen : Flattens ") ? " ") ? " := .of_inline rfl
  have hclose : Flattens " : null)" " : null)" := .of_inline rfl
  exact (((hopen.append hs).append hthen).append ht).append hclose

end Flattens

section

variable (depth : Nat)

theorem expression_field (read : FieldRead) : expression depth (.field read) =
    if read.guarded && !read.path.isEmpty then whereSet (accessOf read) (accessOf read)
    else accessOf read := rfl

theorem expression_construct (target : String) (arguments : List Expression) :
    expression depth (.construct target arguments) =
      "new " ++ target ++ "(\n" ++
        join ",\n" ((indentation (depth + 1) ++ "$this->apiClient") ::
          expressionLines (depth + 1) arguments) ++
        "\n" ++ indentation depth ++ ")" := rfl

theorem expression_arrayMap (source : FieldRead) (element : Binding) (body : Expression) :
    expression depth (.arrayMap source element body) =
      "array_map(function (" ++ variableOf element ++ ") \x7b\n" ++
        indentation (depth + 1) ++ "return " ++ expression (depth + 1) body ++ ";\n" ++
        indentation depth ++ "\x7d, " ++ accessOf source ++ ")" := rfl

theorem expression_nullGuard (subject : FieldRead) (body : Expression) :
    expression depth (.nullGuard subject body) =
      whereSet (accessOf subject) (expression depth body) := rfl

theorem expression_null (name : String) : expression depth (.null name) = "null" := rfl

end

mutual

/-- An expression on one line. -/
def oneLine : Expression → String
  | .field read =>
    if read.guarded && !read.path.isEmpty then whereSet (accessOf read) (accessOf read)
    else accessOf read
  | .construct target arguments =>
    "new " ++ target ++ "(" ++ ("$this->apiClient" ++ oneLineAll arguments) ++ ")"
  | .arrayMap source element body =>
    "array_map(function (" ++ variableOf element ++ ") \x7b" ++
      ("return " ++ oneLine body ++ ";") ++ ("\x7d, " ++ accessOf source ++ ")")
  | .nullGuard subject body => whereSet (accessOf subject) (oneLine body)
  | .null _ => "null"

/-- Arguments on one line, with a comma before each. -/
def oneLineAll : List Expression → String
  | [] => ""
  | e :: rest => "," ++ oneLine e ++ oneLineAll rest

end

theorem oneLine_field (read : FieldRead) : oneLine (.field read) =
    if read.guarded && !read.path.isEmpty then whereSet (accessOf read) (accessOf read)
    else accessOf read := rfl

theorem oneLine_construct (target : String) (arguments : List Expression) :
    oneLine (.construct target arguments) =
      "new " ++ target ++ "(" ++ ("$this->apiClient" ++ oneLineAll arguments) ++ ")" := rfl

theorem oneLine_arrayMap (source : FieldRead) (element : Binding) (body : Expression) :
    oneLine (.arrayMap source element body) =
      "array_map(function (" ++ variableOf element ++ ") \x7b" ++
        ("return " ++ oneLine body ++ ";") ++ ("\x7d, " ++ accessOf source ++ ")") := rfl

theorem oneLine_nullGuard (subject : FieldRead) (body : Expression) :
    oneLine (.nullGuard subject body) = whereSet (accessOf subject) (oneLine body) := rfl

theorem oneLine_null (name : String) : oneLine (.null name) = "null" := rfl

theorem oneLineAll_cons (e : Expression) (rest : List Expression) :
    oneLineAll (e :: rest) = "," ++ oneLine e ++ oneLineAll rest := rfl

theorem join_empty_cons (s : String) (ss : List String) : join "" (s :: ss) = s ++ join "" ss := by
  cases ss with
  | nil => exact (String.append_empty).symm
  | cons t ss => exact congrArg (· ++ join "" (t :: ss)) String.append_empty

theorem isDigit_of_mem_toString (n : Nat) : ∀ c ∈ (toString n).toList, c.isDigit = true := by
  intro c hc
  rw [Nat.toString_eq_repr, Nat.toList_repr] at hc
  exact Nat.isDigit_of_mem_toDigits (by decide) (by decide) hc

theorem flattens_variableOf (b : Binding) : Flattens (variableOf b) (variableOf b) := by
  cases b with
  | body depth =>
      have hbody : Flattens "$responseBody" "$responseBody" := .of_inline rfl
      exact hbody
  | element depth =>
      have helement : Flattens "$element" "$element" := .of_inline rfl
      exact helement.append (.of_forall_mem (isDigit_of_mem_toString depth) rfl rfl)

theorem flattens_accessOf (read : FieldRead) : Flattens (accessOf read) (accessOf read) := by
  refine (flattens_variableOf read.binding).append ?_
  induction read.path with
  | nil => exact .of_inline rfl
  | cons key path ih =>
      have hopen : Flattens "[" "[" := .of_inline rfl
      have hclose : Flattens "]" "]" := .of_inline rfl
      rw [List.map_cons, join_empty_cons]
      exact ((hopen.append (.quote key)).append hclose).append ih

theorem flattens_name {name : String} (h : Name.IsPlain name) : Flattens name name :=
  .of_forall_mem h rfl rfl

theorem startsVisibly_accessOf (read : FieldRead) : StartsVisibly (accessOf read) := by
  have hvariable : StartsVisibly (variableOf read.binding) := by
    cases read.binding with
    | body depth =>
        have hbody : StartsVisibly "$responseBody" := rfl
        exact hbody
    | element depth =>
        have helement : StartsVisibly "$element" := rfl
        exact helement.append _
  exact hvariable.append _

theorem startsVisibly_whereSet (s t : String) : StartsVisibly (whereSet s t) := by
  have hopen : StartsVisibly "(isset(" := rfl
  simp only [whereSet, String.append_assoc]
  exact hopen.append _

theorem startsVisibly_expression (depth : Nat) (e : Expression) :
    StartsVisibly (expression depth e) := by
  cases e with
  | field read =>
      rw [expression_field]
      split
      · exact startsVisibly_whereSet _ _
      · exact startsVisibly_accessOf read
  | construct target arguments =>
      have hnew : StartsVisibly "new " := rfl
      simp only [expression_construct, String.append_assoc]
      exact hnew.append _
  | arrayMap source element body =>
      have hmap : StartsVisibly "array_map(function (" := rfl
      simp only [expression_arrayMap, String.append_assoc]
      exact hmap.append _
  | nullGuard subject body => exact startsVisibly_whereSet _ _
  | null name =>
      rw [expression_null]
      rfl

/-- Lines of arguments, after a first line and with a comma at the end of each but the last. -/
theorem Flattens.lines {s s' : String} (h : Flattens s s') (hs : StartsVisibly s) (depth : Nat)
    {arguments : List Expression}
    (harguments : ∀ e ∈ arguments, Flattens (expression depth e) (oneLine e)) :
    Flattens ("\n" ++ join ",\n" ((indentation depth ++ s) :: expressionLines depth arguments))
      (s' ++ oneLineAll arguments) := by
  induction arguments generalizing s s' with
  | nil =>
      have hempty : oneLineAll [] = "" := rfl
      rw [hempty, String.append_empty]
      exact h.line hs depth
  | cons e arguments ih =>
      obtain ⟨he, harguments⟩ := List.forall_mem_cons.1 harguments
      have hcomma : Flattens "," "," := .of_inline rfl
      have hrest := ih he (startsVisibly_expression depth e) harguments
      have hall := (h.line hs depth).append (hcomma.append hrest)
      have hbreak : ",\n" = "," ++ "\n" := rfl
      have hjoin : join ",\n" ((indentation depth ++ s) :: expressionLines depth (e :: arguments)) =
          indentation depth ++ s ++ ("," ++ "\n") ++
            join ",\n" ((indentation depth ++ expression depth e) ::
              expressionLines depth arguments) := by
        rw [← hbreak]
        rfl
      rw [hjoin, oneLineAll_cons]
      simpa only [String.append_assoc] using hall

/-- An expression at a depth is its text on one line, laid out. -/
theorem flattens_expression {bodyDepth : Nat} {e : Expression} (h : e.Shaped bodyDepth)
    (depth : Nat) : Flattens (expression depth e) (oneLine e) := by
  induction h generalizing depth with
  | read => exact flattens_accessOf _
  | guardedRead _ hpath =>
      rw [expression_field, oneLine_field]
      split
      · exact (flattens_accessOf _).whereSet (flattens_accessOf _)
      · exact flattens_accessOf _
  | construct htarget _ ih =>
      have hnew : Flattens "new " "new " := .of_inline rfl
      have hopen : Flattens "(" "(" := .of_inline rfl
      have hclient : Flattens "$this->apiClient" "$this->apiClient" := .of_inline rfl
      have hclose : Flattens ")" ")" := .of_inline rfl
      have hlines := hclient.lines rfl (depth + 1)
        fun e he => ih e he (depth + 1)
      have hall := (((hnew.append (flattens_name htarget)).append hopen).append hlines).append
        (hclose.line rfl depth)
      have hbreak : "(\n" = "(" ++ "\n" := rfl
      rw [expression_construct, oneLine_construct, hbreak]
      simpa only [String.append_assoc] using hall
  | @arrayMap binding element path body _ _ _ ih =>
      have hmap : Flattens "array_map(function (" "array_map(function (" := .of_inline rfl
      have hopen : Flattens ") \x7b" ") \x7b" := .of_inline rfl
      have hreturn : Flattens "return " "return " := .of_inline rfl
      have hend : Flattens ";" ";" := .of_inline rfl
      have hclose : Flattens "\x7d, " "\x7d, " := .of_inline rfl
      have hparen : Flattens ")" ")" := .of_inline rfl
      have hvisible : StartsVisibly "return " := rfl
      have hbody := ((hreturn.append (ih (depth + 1))).append hend).line
        ((hvisible.append _).append _) (depth + 1)
      have haccess := flattens_accessOf ⟨binding, path, false⟩
      have hvisible' : StartsVisibly "\x7d, " := rfl
      have hsource := ((hclose.append haccess).append hparen).line
        ((hvisible'.append _).append _) depth
      have hall := (((hmap.append (flattens_variableOf element)).append hopen).append hbody).append
        hsource
      have hbreak : ") \x7b\n" = ") \x7b" ++ "\n" := rfl
      have hbreak' : ";\n" = ";" ++ "\n" := rfl
      rw [expression_arrayMap, oneLine_arrayMap, hbreak, hbreak']
      simpa only [String.append_assoc] using hall
  | nullGuard _ _ _ ih =>
      rw [expression_nullGuard, oneLine_nullGuard]
      exact (flattens_accessOf _).whereSet (ih depth)
  | null =>
      rw [expression_null, oneLine_null]
      exact .of_inline rfl

/-- Without its layout, an expression at any depth is its text on one line. -/
theorem withoutLayout_expression {bodyDepth : Nat} {e : Expression} (h : e.Shaped bodyDepth)
    (depth : Nat) : withoutLayout (expression depth e) = oneLine e :=
  (flattens_expression h depth).withoutLayout_eq

end Php

end OpenApiClient
