import OpenApiClient.Proofs.Cutting
import OpenApiClient.Proofs.Writing

/-!
# Where joined paths lead

A path that is joined to another one leads on from where that one leads, name by name.  Names
without a slash that are no dots are the names of the path that is written by joining them.
-/

namespace OpenApiClient

/-- What is put behind a row, and holds no separator, ends its last piece. -/
theorem Text.exists_pieces_append {sep : Char} {ending : List Char} (h : sep ∉ ending)
    (cs : List Char) : ∃ init last, pieces sep (cs ++ ending) = init ++ [last ++ ending] := by
  induction cs with
  | nil => exact ⟨[], [], pieces_of_notMem h⟩
  | cons c cs ih =>
      obtain ⟨init, last, heq⟩ := ih
      rw [List.cons_append, pieces, heq]
      split
      · exact ⟨[] :: init, last, rfl⟩
      · cases init with
        | nil => exact ⟨[], c :: last, rfl⟩
        | cons p ps => exact ⟨(c :: p) :: ps, last, rfl⟩

namespace Path

variable {base names names' parts : List String} {p q : Path} {s : String}

theorem resolveFrom_append (base names names' : List String) :
    resolveFrom base (names ++ names') = resolveFrom (resolveFrom base names) names' := by
  induction names generalizing base with
  | nil => rfl
  | cons name names ih =>
      rw [List.cons_append, resolveFrom, resolveFrom]
      split <;> exact ih _

theorem resolveFrom_of_notMem (h : ".." ∉ names) : resolveFrom base names = base ++ names := by
  induction names generalizing base with
  | nil => exact (List.append_nil base).symm
  | cons name names ih =>
      obtain ⟨hname, hnames⟩ := not_or.1 (mt List.mem_cons.2 h)
      rw [resolveFrom, if_neg (Ne.symm hname), ih hnames, List.append_assoc, List.singleton_append]

/-- A long text is no dots. -/
theorem isName_of_length (h : 2 < s.length) : isName s = true ∧ s ≠ ".." := by
  refine ⟨?_, ?_⟩
  · unfold isName
    rw [Bool.and_eq_true, bne_iff_ne, bne_iff_ne]
    constructor <;> rintro rfl <;> exact absurd h (by decide)
  · rintro rfl
    exact absurd h (by decide)

theorem start_ofString (h : s.toList.head? ≠ some '/') : (ofString s).start = .here := by
  unfold ofString
  dsimp only
  split <;> simp_all

/-- Joined names are the names of the path that they write. -/
theorem ofString_join (hne : parts ≠ []) (hslash : ∀ name ∈ parts, '/' ∉ name.toList)
    (hname : ∀ name ∈ parts, isName name = true) :
    ofString (Text.join "/" parts) = ⟨.here, parts⟩ := by
  have hcut : Text.cut '/' (Text.join "/" parts) = parts := by
    rw [Text.cut, show ("/" : String) = String.singleton '/' from rfl,
      Text.pieces_join_of_notMem hne hslash, List.map_map]
    simp [Function.comp_def]
  have hstart : (ofString (Text.join "/" parts)).start = .here := by
    -- Before a slash in front, there would be a part without characters.
    refine start_ofString fun hhead => ?_
    obtain ⟨rest, hrest⟩ := List.head?_eq_some_iff.1 hhead
    have hempty : "" ∈ parts := by
      rw [← hcut, Text.cut, hrest, Text.pieces, if_pos rfl]
      exact List.mem_cons_self
    exact absurd (hname "" hempty) (by decide)
  have hnames : (ofString (Text.join "/" parts)).names = parts := by
    change (Text.cut '/' (Text.join "/" parts)).filter isName = parts
    rw [hcut, List.filter_eq_self]
    exact hname
  cases hp : ofString (Text.join "/" parts) with
  | mk start names => simp_all

/-- A path whose text ends in more than two characters ends in a name that ends so. -/
theorem exists_names_ofString_append (start : String) {ending : String}
    (hslash : '/' ∉ ending.toList) (hlength : 2 < ending.length) : ∃ names last,
      (ofString (start ++ ending)).names = names ++ [last] ∧ '/' ∉ last.toList ∧ last ≠ ".." := by
  obtain ⟨init, last, hpieces⟩ := Text.exists_pieces_append hslash start.toList
  have hcut : Text.cut '/' (start ++ ending) =
      init.map String.ofList ++ [String.ofList (last ++ ending.toList)] := by
    rw [Text.cut, String.toList_append, hpieces, List.map_append, List.map_singleton]
  have hlong : 2 < (String.ofList (last ++ ending.toList)).length := by
    rw [String.length_ofList, List.length_append, String.length_toList]
    omega
  obtain ⟨hname, hdots⟩ := isName_of_length hlong
  refine ⟨(init.map String.ofList).filter isName, _, ?_, ?_, hdots⟩
  · change (Text.cut '/' (start ++ ending)).filter isName = _
    rw [hcut, List.filter_append, List.filter_cons_of_pos hname]
    rfl
  · rw [String.toList_ofList]
    exact Text.notMem_of_mem_pieces (hpieces ▸ List.mem_append_right init List.mem_cons_self)

theorem ofString_of_notMem (hslash : '/' ∉ s.toList) (hname : isName s = true) :
    ofString s = ⟨.here, [s]⟩ :=
  ofString_join (List.cons_ne_nil s []) (by simpa using hslash) (by simpa using hname)

end Path

namespace Disk

variable {p q : Path} {names : List String}

theorem place_join (d : Disk) (p : Path) (h : q.start = .here) :
    d.place (p.join q) = Path.resolveFrom (d.place p) q.names := by
  rw [Path.join, if_pos h, place, place, Path.resolveFrom_append]

/-- Names that lead down only are the last names of the place that they lead to. -/
theorem place_join_of_notMem (d : Disk) (p : Path) (h : ".." ∉ names) :
    d.place (p.join ⟨.here, names⟩) = d.place p ++ names := by
  rw [d.place_join p rfl, Path.resolveFrom_of_notMem h]

/-- The last name of a path that leads down is the last one of the place. -/
theorem exists_place_join (d : Disk) (p : Path) {last : String} (h : q.names = names ++ [last])
    (hdots : last ≠ "..") : ∃ up, d.place (p.join q) = up ++ [last] := by
  have hlast (here : Place) : ∃ up, Path.resolveFrom here q.names = up ++ [last] := by
    rw [h, Path.resolveFrom_append]
    exact ⟨_, Path.resolveFrom_of_notMem (by simpa using hdots.symm)⟩
  by_cases hstart : q.start = .here
  · rw [d.place_join p hstart]
    exact hlast _
  · rw [Path.join, if_neg hstart]
    exact hlast _

/-- On the way down from where a path leads, one is on the way of that path or beyond it. -/
theorem OnTheWay.of_join {d : Disk} {p : Path} {place : Place} (h : ".." ∉ names)
    (hplace : d.OnTheWay (p.join ⟨.here, names⟩) place) :
    d.OnTheWay p place ∨ d.place p <+: place := by
  obtain ⟨walked, hwalked, hup⟩ := hplace
  replace hwalked : walked <+: p.names ++ names := hwalked
  rcases List.prefix_or_prefix_of_prefix hwalked (List.prefix_append p.names names) with
    hbefore | ⟨rest, rfl⟩
  · exact .inl ⟨walked, hbefore, hup⟩
  · have hrest : rest <+: names := (List.prefix_append_right_inj p.names).1 hwalked
    have hdots : ".." ∉ rest := fun hmem => h (hrest.subset hmem)
    have hbeyond : place <+: d.place p ++ rest := d.place_join_of_notMem p hdots ▸ hup
    refine (List.prefix_or_prefix_of_prefix hbeyond (List.prefix_append _ rest)).imp_left ?_
    intro hbefore
    exact ⟨p.names, List.prefix_refl _, hbefore⟩

end Disk

end OpenApiClient
