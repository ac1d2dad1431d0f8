import OpenApiClient.Php.Parameter
import OpenApiClient.Php.Quoted

/-!
# Request paths in PHP

The path of a request is put together from the literal parts of a path template and the
values of its parameters.  A placeholder reaches from a brace to the next closing one; a
placeholder that names no parameter is literal, and so is a brace that is never closed.
-/

namespace OpenApiClient.Php

open Text

/-- A part of a path: literal text, or the value of a parameter. -/
inductive PathTerm where
  | literal (cs : List Char)
  | value (name : List Char) (p : Parameter)
  deriving Repr

namespace PathTerm

/-- What stands before and after the first occurrence of a character. -/
def cutAt? (c : Char) : List Char → Option (List Char × List Char)
  | [] => none
  | x :: rest =>
    if x = c then some ([], rest) else (cutAt? c rest).map fun (before, after) =>
      (x :: before, after)

/-- A cut loses nothing but the character it is made at. -/
theorem eq_of_cutAt? {c : Char} {cs before after : List Char}
    (h : cutAt? c cs = some (before, after)) : cs = before ++ c :: after := by
  induction cs generalizing before after with
  | nil => simp [cutAt?] at h
  | cons x rest ih =>
    unfold cutAt? at h
    split at h
    · next hx =>
      simp only [Option.some.injEq, Prod.mk.injEq] at h
      obtain ⟨rfl, rfl⟩ := h
      simp [hx]
    · cases hr : cutAt? c rest with
      | none => simp [hr] at h
      | some r =>
        obtain ⟨b, a⟩ := r
        simp only [hr, Option.map_some, Option.some.injEq, Prod.mk.injEq] at h
        obtain ⟨rfl, rfl⟩ := h
        simp [ih hr]

/-- A literal part, if there is anything in it. -/
def ofLiteral (cs : List Char) : List PathTerm := if cs.isEmpty then [] else [.literal cs]

/-- The parts of a path template, after some literal text that belongs to its first part. -/
def scan (params : List (String × Parameter)) (literal cs : List Char) : List PathTerm :=
  match _h₁ : cutAt? '\x7b' cs with
  | none => ofLiteral (literal ++ cs)
  | some (before, rest) =>
    match _h₂ : cutAt? '\x7d' rest with
    | none => ofLiteral (literal ++ cs)
    | some (name, after) =>
      match params.lookup (String.ofList name) with
      | none => scan params (literal ++ before ++ '\x7b' :: name ++ ['\x7d']) after
      | some p => ofLiteral (literal ++ before) ++ .value name p :: scan params [] after
termination_by cs.length
decreasing_by
  all_goals
    have h₁ := eq_of_cutAt? _h₁
    have h₂ := eq_of_cutAt? _h₂
    subst h₁ h₂
    simp only [List.length_append, List.length_cons]
    omega

/-- The parts of a path template. -/
def ofTemplate (params : List (String × Parameter)) (path : String) : List PathTerm :=
  scan params [] path.toList

/-- A part as it is written. -/
def text : PathTerm → String
  | .literal cs => quote (String.ofList cs)
  | .value _ p => "rawurlencode(" ++ parameterValue p ++ ")"

end PathTerm

/-- The expression of a request path; an empty path is an empty literal. -/
def requestPath (params : List (String × Parameter)) (path : String) : String :=
  match PathTerm.ofTemplate params path with
  | [] => quote ""
  | terms => join " . " (terms.map PathTerm.text)

end OpenApiClient.Php
