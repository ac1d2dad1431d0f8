import Mathlib.Data.List.Forall2
import OpenApiClient.Php.RequestPath

/-!
# What is left of a path template

`Cuts` says how a path template is read, a character at a time: a brace with a closing one behind it
begins a placeholder, which reaches to the first of these, and every other character is plain.  It
does not know which placeholders name parameters.

The expression of a request path joins terms, and every term stands for some pieces of the template
that follow each other: a literal for plain characters and for placeholders that name no parameter,
the value of a parameter for one placeholder that names it.  Together the terms stand for all
pieces, each once and in their order.
-/

namespace OpenApiClient.Php

open Text

variable {params : List (String × Parameter)} {c : Char} {cs before after name literal : List Char}

/-- A piece of a path template. -/
inductive Piece where
  | plain (c : Char)
  | placeholder (name : List Char)
  deriving DecidableEq, Repr

/-- A piece as it stands in the template. -/
def Piece.template : Piece → List Char
  | plain c => [c]
  | placeholder name => '\x7b' :: name ++ ['\x7d']

theorem flatMap_template_append_plain (pieces : List Piece) (cs : List Char) :
    (pieces ++ cs.map Piece.plain).flatMap Piece.template =
      pieces.flatMap Piece.template ++ cs := by
  rw [List.flatMap_append, List.flatMap_map]
  exact congrArg _ (List.flatMap_singleton' cs)

/-- A template is cut into pieces from left to right. -/
inductive Cuts : List Char → List Piece → Prop
  | nil : Cuts [] []
  | plain {c : Char} {rest : List Char} {pieces : List Piece} (hc : c = '\x7b' → '\x7d' ∉ rest)
      (hrest : Cuts rest pieces) : Cuts (c :: rest) (.plain c :: pieces)
  | placeholder {name rest : List Char} {pieces : List Piece} (hname : '\x7d' ∉ name)
      (hrest : Cuts rest pieces) :
      Cuts ('\x7b' :: name ++ '\x7d' :: rest) (.placeholder name :: pieces)

namespace Cuts

variable {pieces others : List Piece}

/-- Nothing of the template is lost. -/
theorem flatMap_template (h : Cuts cs pieces) : pieces.flatMap Piece.template = cs := by
  induction h with
  | nil => rfl
  | plain _ _ ih => rw [List.flatMap_cons, ih, Piece.template, List.singleton_append]
  | placeholder _ _ ih =>
      rw [List.flatMap_cons, ih, Piece.template, List.append_assoc, List.singleton_append]

/-- Characters before the first brace are plain. -/
theorem append (hbefore : '\x7b' ∉ before) (h : Cuts after pieces) :
    Cuts (before ++ after) (before.map .plain ++ pieces) := by
  induction before with
  | nil => exact h
  | cons c before ih =>
      obtain ⟨hc, hbefore⟩ := not_or.1 (mt List.mem_cons.2 hbefore)
      exact .plain (fun heq => absurd heq.symm hc) (ih hbefore)

/-- Without a closing brace there are no placeholders. -/
theorem of_notMem (h : '\x7d' ∉ cs) : Cuts cs (cs.map .plain) := by
  induction cs with
  | nil => exact .nil
  | cons c cs ih =>
      have hcs : '\x7d' ∉ cs := fun hmem => h (List.mem_cons_of_mem c hmem)
      exact .plain (fun _ => hcs) (ih hcs)

end Cuts

namespace PathTerm

/-- No occurrence is found exactly if there is none. -/
theorem cutAt?_eq_none_iff : cutAt? c cs = none ↔ c ∉ cs := by
  induction cs with
  | nil => simp [cutAt?]
  | cons x cs ih =>
      rw [cutAt?]
      split
      · next hx => simp [hx]
      · next hx => simp [ih, Ne.symm hx]

/-- The occurrence that is found is the first one. -/
theorem notMem_of_cutAt? (h : cutAt? c cs = some (before, after)) : c ∉ before := by
  induction cs generalizing before with
  | nil => simp [cutAt?] at h
  | cons x cs ih =>
      rw [cutAt?] at h
      split at h
      · obtain ⟨rfl, -⟩ := Prod.mk.inj (Option.some.inj h)
        exact List.not_mem_nil
      · next hx =>
          obtain ⟨⟨before', after'⟩, hcut, heq⟩ := Option.map_eq_some_iff.1 h
          obtain ⟨rfl, rfl⟩ := Prod.mk.inj heq
          rw [List.mem_cons, not_or]
          exact ⟨Ne.symm hx, ih hcut⟩

theorem cutAt?_append_cons (h : c ∉ before) :
    cutAt? c (before ++ c :: after) = some (before, after) := by
  induction before with
  | nil => exact if_pos rfl
  | cons x before ih =>
      obtain ⟨hx, hbefore⟩ := not_or.1 (mt List.mem_cons.2 h)
      rw [List.cons_append, cutAt?, if_neg (Ne.symm hx), ih hbefore]
      rfl

end PathTerm

/-- There is only one way to cut a template. -/
theorem Cuts.unique {pieces others : List Piece} (h : Cuts cs pieces) (h' : Cuts cs others) :
    others = pieces := by
  induction h generalizing others with
  | nil =>
      cases h'
      rfl
  | @plain c rest pieces hc hrest ih =>
      generalize htemplate : c :: rest = cs at h'
      cases h' with
      | nil => cases htemplate
      | plain _ hrest' =>
          obtain ⟨rfl, rfl⟩ := List.cons.inj htemplate
          rw [ih hrest']
      | placeholder _ _ =>
          obtain ⟨rfl, rfl⟩ := List.cons.inj htemplate
          exact absurd (List.mem_append_right _ List.mem_cons_self) (hc rfl)
  | @placeholder name rest pieces hname hrest ih =>
      generalize htemplate : '\x7b' :: name ++ '\x7d' :: rest = cs at h'
      cases h' with
      | nil => cases htemplate
      | plain hc _ =>
          obtain ⟨rfl, rfl⟩ := List.cons.inj htemplate
          exact absurd (List.mem_append_right _ List.mem_cons_self) (hc rfl)
      | @placeholder name' rest' _ hname' hrest' =>
          -- Both placeholders reach to the first closing brace.
          have htail : name ++ '\x7d' :: rest = name' ++ '\x7d' :: rest' :=
            (List.cons.inj htemplate).2
          have hcut : PathTerm.cutAt? '\x7d' (name ++ '\x7d' :: rest) = some (name, rest) :=
            PathTerm.cutAt?_append_cons hname
          rw [htail, PathTerm.cutAt?_append_cons hname'] at hcut
          obtain ⟨rfl, rfl⟩ := Prod.mk.inj (Option.some.inj hcut)
          rw [ih hrest']

/-- Pieces that a literal stands for: no placeholder among them names a parameter. -/
def Undeclared (params : List (String × Parameter)) (pieces : List Piece) : Prop :=
  ∀ name, .placeholder name ∈ pieces → params.lookup (String.ofList name) = none

namespace Undeclared

variable {pieces : List Piece}

theorem nil : Undeclared params [] := nofun

theorem append_plain (h : Undeclared params pieces) (cs : List Char) :
    Undeclared params (pieces ++ cs.map .plain) := by
  intro name hmem
  exact h name (by simpa using hmem)

theorem append_placeholder (h : Undeclared params pieces)
    (hname : params.lookup (String.ofList name) = none) :
    Undeclared params (pieces ++ [Piece.placeholder name]) := by
  intro name' hmem
  rcases List.mem_append.1 hmem with hmem | hmem
  · exact h name' hmem
  · cases List.mem_singleton.1 hmem
    exact hname

end Undeclared

/-- A term of a request path, as it is written, stands for pieces of the template. -/
inductive Denotes (params : List (String × Parameter)) : String → List Piece → Prop
  /-- The text of a literal, read up to its closing quote, is that of the pieces. -/
  | literal {body cs : List Char} {pieces : List Piece} (hread : decode? body = some (cs, []))
      (hcs : pieces.flatMap Piece.template = cs) (hpieces : Undeclared params pieces) :
      Denotes params (String.ofList ('\'' :: body)) pieces
  | value {name : List Char} {p : Parameter} (hp : params.lookup (String.ofList name) = some p) :
      Denotes params ("rawurlencode(" ++ parameterValue p ++ ")") [.placeholder name]

theorem denotes_quote {pieces : List Piece} (hcs : pieces.flatMap Piece.template = cs)
    (hpieces : Undeclared params pieces) : Denotes params (quote (String.ofList cs)) pieces := by
  refine .literal ?_ hcs hpieces
  rw [String.toList_ofList]
  exact decode?_encode cs []

/-- Terms stand for pieces of a template, each term for a group of its own. -/
def DenoteAll (params : List (String × Parameter)) (terms : List PathTerm) (pieces : List Piece) :
    Prop :=
  ∃ groups, List.Forall₂ (fun t => Denotes params t.text) terms groups ∧ groups.flatten = pieces

namespace DenoteAll

variable {terms terms' : List PathTerm} {pieces pieces' : List Piece}

theorem append (h : DenoteAll params terms pieces) (h' : DenoteAll params terms' pieces') :
    DenoteAll params (terms ++ terms') (pieces ++ pieces') := by
  obtain ⟨groups, hgroups, rfl⟩ := h
  obtain ⟨groups', hgroups', rfl⟩ := h'
  exact ⟨groups ++ groups', List.rel_append hgroups hgroups', List.flatten_append⟩

theorem singleton {t : PathTerm} (h : Denotes params t.text pieces) :
    DenoteAll params [t] pieces :=
  ⟨[pieces], .cons h .nil, List.flatten_singleton⟩

theorem ofLiteral (hcs : pieces.flatMap Piece.template = cs) (hpieces : Undeclared params pieces) :
    DenoteAll params (PathTerm.ofLiteral cs) pieces := by
  unfold PathTerm.ofLiteral
  split
  · next hempty =>
      -- Every piece has some text, so there is none.
      rw [List.isEmpty_iff.1 hempty, List.flatMap_eq_nil_iff] at hcs
      have hnil : pieces = [] := by
        refine List.eq_nil_iff_forall_not_mem.2 ?_
        intro piece hmem
        cases piece with
        | plain c => cases hcs _ hmem
        | placeholder name => cases hcs _ hmem
      rw [hnil]
      exact ⟨[], .nil, rfl⟩
  · exact singleton (denotes_quote hcs hpieces)

end DenoteAll

/-- The terms of a template, after some literal text that belongs to its first term, stand for the
pieces of that text and for those of the template. -/
theorem exists_denoteAll_scan (params : List (String × Parameter)) (literal cs : List Char)
    {held : List Piece} (hheld : held.flatMap Piece.template = literal)
    (hundeclared : Undeclared params held) :
    ∃ pieces, Cuts cs pieces ∧
      DenoteAll params (PathTerm.scan params literal cs) (held ++ pieces) := by
  fun_induction PathTerm.scan params literal cs generalizing held with
  | case1 literal cs hopen =>
      have hopen := PathTerm.cutAt?_eq_none_iff.1 hopen
      refine ⟨cs.map .plain, ?_, .ofLiteral ?_ (hundeclared.append_plain cs)⟩
      · have hcuts := Cuts.append hopen .nil
        rwa [List.append_nil, List.append_nil] at hcuts
      · rw [flatMap_template_append_plain, hheld]
  | case2 literal cs before rest hopen hclose =>
      have hclose := PathTerm.cutAt?_eq_none_iff.1 hclose
      refine ⟨cs.map .plain, ?_, .ofLiteral ?_ (hundeclared.append_plain cs)⟩
      · rw [PathTerm.eq_of_cutAt? hopen, List.map_append]
        refine .append (PathTerm.notMem_of_cutAt? hopen) ?_
        exact .plain (fun _ => hclose) (.of_notMem hclose)
      · rw [flatMap_template_append_plain, hheld]
  | case3 literal cs before rest hopen name after hclose hlookup ih =>
      -- The placeholder goes on with the literal that stands before it.
      have hheld' :
          (held ++ before.map Piece.plain ++ [Piece.placeholder name]).flatMap Piece.template =
            literal ++ before ++ '\x7b' :: name ++ ['\x7d'] := by
        rw [List.flatMap_append, flatMap_template_append_plain, hheld, List.flatMap_singleton,
          Piece.template, List.append_assoc _ ('\x7b' :: name)]
      obtain ⟨pieces, hcuts, hdenote⟩ :=
        ih hheld' ((hundeclared.append_plain before).append_placeholder hlookup)
      refine ⟨before.map .plain ++ .placeholder name :: pieces, ?_, by simpa using hdenote⟩
      rw [PathTerm.eq_of_cutAt? hopen, PathTerm.eq_of_cutAt? hclose]
      exact .append (PathTerm.notMem_of_cutAt? hopen)
        (.placeholder (PathTerm.notMem_of_cutAt? hclose) hcuts)
  | case4 literal cs before rest hopen name after hclose p hlookup ih =>
      obtain ⟨pieces, hcuts, hdenote⟩ := ih List.flatMap_nil .nil
      refine ⟨before.map .plain ++ .placeholder name :: pieces, ?_, ?_⟩
      · rw [PathTerm.eq_of_cutAt? hopen, PathTerm.eq_of_cutAt? hclose]
        exact .append (PathTerm.notMem_of_cutAt? hopen)
          (.placeholder (PathTerm.notMem_of_cutAt? hclose) hcuts)
      · have hliteral : DenoteAll params (PathTerm.ofLiteral (literal ++ before))
            (held ++ before.map .plain) := by
          refine .ofLiteral ?_ (hundeclared.append_plain before)
          rw [flatMap_template_append_plain, hheld]
        have hvalue : DenoteAll params [.value name p] [.placeholder name] :=
          .singleton (.value hlookup)
        simpa using (hliteral.append hvalue).append hdenote

/-- The expression of a request path says what its template does.

A template is cut into pieces in one way, and they make it up again.  The expression joins one or
more terms by dots, and these stand for the pieces: cut into groups, one for each term, the pieces
are plain characters and placeholders without a parameter where the term is a literal, and one
placeholder with a parameter where it is the value of that parameter. -/
theorem requestPath_denotes (params : List (String × Parameter)) (path : String) :
    ∃ pieces, Cuts path.toList pieces ∧ (∀ others, Cuts path.toList others → others = pieces) ∧
      pieces.flatMap Piece.template = path.toList ∧
      ∃ terms groups, terms ≠ [] ∧ requestPath params path = join " . " terms ∧
        List.Forall₂ (Denotes params) terms groups ∧ groups.flatten = pieces := by
  obtain ⟨pieces, hcuts, groups, hgroups, hflatten⟩ :=
    exists_denoteAll_scan params [] path.toList List.flatMap_nil .nil
  refine ⟨pieces, hcuts, fun others => hcuts.unique, hcuts.flatMap_template, ?_⟩
  unfold requestPath PathTerm.ofTemplate
  split
  · next hnil =>
      rw [hnil] at hgroups
      cases hgroups
      refine ⟨[quote ""], [[]], List.cons_ne_nil _ _, rfl, ?_, hflatten⟩
      exact .cons (denotes_quote rfl .nil) .nil
  · next hne =>
      refine ⟨_, groups, ?_, rfl, List.forall₂_map_left_iff.2 hgroups, hflatten⟩
      simpa using hne

/-- A brace that is closed later begins a placeholder, whatever else stands between them. -/
example : requestPath [("id", { name := "id", variableName := "petId", location := .path })]
    "/\x7ba\x7bid\x7d\x7bid\x7d" = "'/\x7ba\x7bid\x7d' . rawurlencode($petId)" := by
  decide +kernel

end OpenApiClient.Php
