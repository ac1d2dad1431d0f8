import OpenApiClient.Proofs.Pointers
import Mathlib.Data.List.Nodup

/-!
# What a schema is composed of

`Composed doc node ps part` says that following the members of compositions leads from a schema
to one of its parts, by way of the references `ps`.  Nothing in it bounds the way: it may follow
a pointer again and again.  The closure of a schema follows each pointer at most once on a way.
Still it misses nothing, because a way that meets a pointer twice can leave out what lies
between, as a pointer leads to one place only: `mem_closure_iff` says that the closure holds
exactly the properties that the parts of a schema declare.
-/

namespace OpenApiClient

namespace Document

/-- Where a chain of references ends depends on its first pointer alone. -/
theorem settle_congr (doc : Document) {node node' : Value} {p : String}
    (h : node.reference? = some (.str p)) (h' : node'.reference? = some (.str p)) :
    doc.settle node = doc.settle node' := by
  unfold settle
  rw [h, h']
  dsimp only
  rw [chase, chase]
  simp only [h, h']
  rw [dif_pos List.mem_cons_self, dif_pos List.mem_cons_self]

/-- A reference whose chain ends somewhere points with a text. -/
theorem reference?_of_settle {doc : Document} {node target pointer : Value}
    (h : doc.settle node = .ok target) (hr : node.reference? = some pointer) :
    ∃ p, pointer = .str p := by
  unfold settle at h
  rw [hr] at h
  by_contra hp
  have hchase : doc.chase doc.pointers node = .ok target := by
    split at h
    · next heq => simp at heq
    · next p heq => exact absurd ⟨p, Option.some.inj heq⟩ hp
    · exact h
  rw [chase, hr] at hchase
  split at hchase
  · next heq => simp at heq
  · next p heq => exact hp ⟨p, Option.some.inj heq⟩
  · split at hchase <;> simp at hchase

end Document

namespace Schema

/-- The pointer that a node is left by, if it is a reference. -/
def followed (node : Value) : List String :=
  match node.reference? with
  | some (.scalar (.str p)) => [p]
  | _ => []

theorem mem_followed {node : Value} {p : String} :
    p ∈ followed node ↔ node.reference? = some (.str p) := by
  unfold followed
  split
  · next q h => simp [h, eq_comm]
  · next h => simpa using h p

theorem followed_eq_of_mem {node : Value} {p : String} (h : p ∈ followed node) :
    followed node = [p] := by
  simp [followed, mem_followed.1 h]

theorem nodup_followed (node : Value) : (followed node).Nodup := by
  unfold followed
  split <;> simp

/-- A schema is composed of a part, which is reached by way of the references `ps`. -/
inductive Composed (doc : Document) : Value → List String → Value → Prop
  /-- Every schema is a part of itself. -/
  | own {node part : Value} (hs : doc.settle node = .ok part) (hm : part.isMap = true) :
      Composed doc node (followed node) part
  /-- The parts of its members are parts of a schema. -/
  | member {node target m part : Value} {ms : List Value} {ps : List String}
      (hs : doc.settle node = .ok target) (hm : target.isMap = true)
      (hms : members target = .ok ms) (hmem : m ∈ ms) (hrest : Composed doc m ps part) :
      Composed doc node (followed node ++ ps) part

/-- A part of a schema declares a property. -/
def Declares (doc : Document) (node : Value) (name : Scalar) (schema : Value)
    (required : Bool) : Prop :=
  ∃ ps part, Composed doc node ps part ∧ .property name schema required ∈ ownProperties part

namespace Composed

variable {doc : Document} {node part : Value} {ps : List String}

/-- The way from a reference is the way from every reference with its pointer. -/
theorem congr {node' : Value} {p : String} (hp : p ∈ followed node) (hp' : p ∈ followed node')
    (h : Composed doc node ps part) : Composed doc node' ps part := by
  have hs := doc.settle_congr (mem_followed.1 hp) (mem_followed.1 hp')
  have hf : followed node = followed node' := by
    rw [followed_eq_of_mem hp, followed_eq_of_mem hp']
  cases h with
  | own h hm =>
      rw [hf]
      exact own (hs ▸ h) hm
  | member h hm hms hmem hrest =>
      rw [hf]
      exact member (hs ▸ h) hm hms hmem hrest

/-- A way that follows a pointer ends with a way that starts with it. -/
theorem exists_suffix {p : String} (h : Composed doc node ps part) (hp : p ∈ ps) :
    ∃ node' ps', p ∈ followed node' ∧ Composed doc node' ps' part ∧ ps' <:+ ps := by
  induction h with
  | @own node part hs hm => exact ⟨node, _, hp, own hs hm, List.suffix_refl _⟩
  | @member node target m part ms ps hs hm hms hmem hrest ih =>
      rcases List.mem_append.1 hp with hp | hp
      · exact ⟨node, _, hp, member hs hm hms hmem hrest, List.suffix_refl _⟩
      · obtain ⟨node', ps', hp', h', hsuf⟩ := ih hp
        exact ⟨node', ps', hp', h', hsuf.trans (List.suffix_append _ _)⟩

/-- Every part can be reached without following a pointer twice. -/
theorem exists_nodup (h : Composed doc node ps part) :
    ∃ ps', Composed doc node ps' part ∧ ps'.Nodup ∧ ps' ⊆ ps := by
  induction h with
  | @own node part hs hm =>
      exact ⟨_, own hs hm, nodup_followed node, List.Subset.refl _⟩
  | @member node target m part ms ps hs hm hms hmem hrest ih =>
      obtain ⟨ps', h', hnodup, hsub⟩ := ih
      by_cases hmeet : ∃ p ∈ followed node, p ∈ ps'
      · -- The way comes back to the first pointer: leave out what lies between.
        obtain ⟨p, hp, hps⟩ := hmeet
        obtain ⟨node', ps₁, hp', h₁, hsuf⟩ := h'.exists_suffix hps
        refine ⟨ps₁, h₁.congr hp' hp, hsuf.sublist.nodup hnodup, ?_⟩
        exact List.Subset.trans (List.Subset.trans hsuf.subset hsub) (List.subset_append_right _ _)
      · refine ⟨followed node ++ ps', member hs hm hms hmem h', ?_, ?_⟩
        · rw [List.nodup_append]
          refine ⟨nodup_followed node, hnodup, ?_⟩
          rintro p hp _ hq rfl
          exact hmeet ⟨p, hp, hq⟩
        · exact List.append_subset.2 ⟨List.subset_append_left _ _,
            List.Subset.trans hsub (List.subset_append_right _ _)⟩

/-- A way follows pointers of its start and of the document, and what it leads to holds no
others. -/
theorem subset_reach (h : Composed doc node ps part) :
    ps ⊆ doc.reach node ∧ part.pointers ⊆ doc.reach node := by
  have hf (node : Value) : followed node ⊆ doc.reach node := fun p hp =>
    List.mem_append_left _ (Value.mem_pointers_of_reference? (mem_followed.1 hp))
  induction h with
  | @own node part hs hm => exact ⟨hf node, Document.pointers_subset_of_settle hs⟩
  | @member node target m part ms ps hs hm hms hmem hrest ih =>
      have hreach : doc.reach m ⊆ doc.reach node := by
        refine List.append_subset.2 ⟨?_, List.subset_append_right _ _⟩
        exact List.Subset.trans (pointers_subset_of_members hms hmem)
          (Document.pointers_subset_of_settle hs)
      exact ⟨List.append_subset.2 ⟨hf node, List.Subset.trans ih.1 hreach⟩,
        List.Subset.trans ih.2 hreach⟩

end Composed

variable {doc : Document} {node : Value} {name : Scalar} {schema : Value} {required : Bool}

/-- The contributions of a node are those of the end of its chain of references, as long as it
may still be left by its pointer. -/
theorem contributions_of_settle {unused : List String} {target : Value}
    (hs : doc.settle node = .ok target) (hf : followed node ⊆ unused) :
    ∃ rest, contributions doc unused node = settledContributions doc rest target ∧
      ∀ p, p ∈ rest ↔ p ∈ unused ∧ p ∉ followed node := by
  cases hr : node.reference? with
  | none =>
      have hnode : doc.settle node = .ok node :=
        Document.settle_of_not_reference (by simp [Value.isReference, hr])
      obtain rfl : node = target := Except.ok.inj (hnode.symm.trans hs)
      refine ⟨unused, ?_, fun p => by simp [followed, hr]⟩
      rw [contributions, hr]
  | some pointer =>
      obtain ⟨p, rfl⟩ := Document.reference?_of_settle hs hr
      have hp : p ∈ followed node := mem_followed.2 hr
      refine ⟨_, contributions_of_reference hr (hf hp) hs, fun q => ?_⟩
      rw [Document.mem_without, followed_eq_of_mem hp, List.mem_singleton]

/-- A pointer is not followed again. -/
theorem contributions_of_used {unused : List String} {p : String}
    (hr : node.reference? = some (.str p)) (hp : p ∉ unused) :
    contributions doc unused node = [.cycle p] := by
  rw [contributions, hr]
  dsimp only
  rw [dif_neg hp]

/-- The fault of a reference that points with anything but a text. -/
def pointerFault (pointer : Value) : Fault :=
  if pointer.isKey then .ofValue .unsupportedReference pointer else .refused .notAKey

/-- A reference that points with anything but a text fails. -/
theorem contributions_of_not_text (doc : Document) (unused : List String) {pointer : Value}
    (hr : node.reference? = some pointer) (hne : ∀ p, pointer ≠ .str p) :
    contributions doc unused node = [.failure (pointerFault pointer)] := by
  rw [contributions, hr]
  split
  · next heq => cases heq
  · next p heq => exact absurd (Option.some.inj heq) (hne p)
  · next heq =>
      obtain rfl := Option.some.inj heq
      unfold pointerFault
      split <;> rfl

theorem settledContributions_of_fault {unused : List String} {fault : Fault}
    (hm : node.isMap = true) (hms : members node = .error fault) :
    settledContributions doc unused node = [.failure fault] := by
  rw [settledContributions, if_pos hm]
  split
  · next heq => rw [Except.error.inj (hms.symm.trans heq)]
  · next heq => cases hms.symm.trans heq

theorem settledContributions_of_members {unused : List String} {ms : List Value}
    (hm : node.isMap = true) (hms : members node = .ok ms) :
    settledContributions doc unused node =
      ms.flatMap (contributions doc unused) ++ ownProperties node := by
  rw [settledContributions, if_pos hm]
  split
  · next heq => simp [hms] at heq
  · next ms' heq =>
      obtain rfl : ms = ms' := Except.ok.inj (hms.symm.trans heq)
      rw [List.flatMap_subtype (g := contributions doc unused) fun _ _ => rfl]
      simp

/-- Induction along the walk of a composition: what holds of a schema with what it contributes (`P`)
follows from what holds at the end of its chain of references (`Q`), and that from what holds of
the members there.  Whatever cannot be walked contributes its failure alone. -/
theorem contributions_induction (doc : Document)
    (P Q : List String → Value → List Contribution → Prop)
    (noReference : ∀ unused node, node.reference? = none →
      Q unused node (settledContributions doc unused node) →
      P unused node (settledContributions doc unused node))
    (fault : ∀ unused node p f, node.reference? = some (.str p) → p ∈ unused →
      doc.settle node = .error f → P unused node [.failure f])
    (followed : ∀ unused node p target, node.reference? = some (.str p) → p ∈ unused →
      doc.settle node = .ok target →
      Q (Document.without p unused) target
        (settledContributions doc (Document.without p unused) target) →
      P unused node (settledContributions doc (Document.without p unused) target))
    (cycle : ∀ unused node p, node.reference? = some (.str p) → p ∉ unused →
      P unused node [.cycle p])
    (notText : ∀ unused node pointer, node.reference? = some pointer → (∀ p, pointer ≠ .str p) →
      P unused node [.failure (pointerFault pointer)])
    (noMembers : ∀ unused node f, node.isMap = true → members node = .error f →
      Q unused node [.failure f])
    (parts : ∀ unused node ms, node.isMap = true → members node = .ok ms →
      (∀ m ∈ ms, P unused m (contributions doc unused m)) →
      Q unused node (ms.flatMap (contributions doc unused) ++ ownProperties node))
    (noMap : ∀ unused node, ¬ node.isMap = true → Q unused node [])
    (unused : List String) (node : Value) : P unused node (contributions doc unused node) := by
  refine contributions.induct doc (fun unused node => P unused node (contributions doc unused node))
    (fun unused node => Q unused node (settledContributions doc unused node))
    ?_ ?_ ?_ ?_ ?_ ?_ ?_ ?_ ?_ unused node
  · intro unused node hr ih
    rw [contributions, hr]
    exact noReference unused node hr ih
  · intro unused node p hr hp f hs
    rw [contributions_of_fault hr hp hs]
    exact fault unused node p f hr hp hs
  · intro unused node p hr hp target hs ih
    rw [contributions_of_reference hr hp hs]
    exact followed unused node p target hr hp hs ih
  · intro unused node p hr hp
    rw [contributions_of_used hr hp]
    exact cycle unused node p hr hp
  · intro unused node pointer hne hr _
    rw [contributions_of_not_text doc unused hr hne]
    exact notText unused node pointer hr hne
  · intro unused node pointer hne hr _
    rw [contributions_of_not_text doc unused hr hne]
    exact notText unused node pointer hr hne
  · intro unused node hm f hms
    rw [settledContributions_of_fault hm hms]
    exact noMembers unused node f hm hms
  · intro unused node hm ms hms ih
    rw [settledContributions_of_members hm hms]
    exact parts unused node ms hm hms ih
  · intro unused node hm
    rw [settledContributions, if_neg hm]
    exact noMap unused node hm

theorem exists_members_of_no_failure {unused : List String} (hm : node.isMap = true)
    (hno : ∀ f, .failure f ∉ settledContributions doc unused node) :
    ∃ ms, members node = .ok ms := by
  cases hms : members node with
  | ok ms => exact ⟨ms, rfl⟩
  | error f =>
      refine absurd ?_ (hno f)
      rw [settledContributions_of_fault hm hms]
      exact List.mem_singleton_self _

/-- A way that follows no pointer twice is walked as long as its pointers are unused. -/
theorem mem_contributions_of_composed {unused ps : List String} {part : Value}
    (h : Composed doc node ps part) (hnodup : ps.Nodup) (hsub : ps ⊆ unused)
    (hown : .property name schema required ∈ ownProperties part)
    (hno : ∀ f, .failure f ∉ contributions doc unused node) :
    .property name schema required ∈ contributions doc unused node := by
  induction h generalizing unused with
  | @own node part hs hm =>
      obtain ⟨rest, heq, -⟩ := contributions_of_settle hs hsub
      rw [heq] at hno ⊢
      obtain ⟨ms, hms⟩ := exists_members_of_no_failure hm hno
      rw [settledContributions_of_members hm hms]
      exact List.mem_append_right _ hown
  | @member node target m part ms ps hs hm hms hmem hrest ih =>
      obtain ⟨hf, hps⟩ := List.append_subset.1 hsub
      obtain ⟨-, hnd, hdis⟩ := List.nodup_append.1 hnodup
      obtain ⟨rest, heq, hkeep⟩ := contributions_of_settle hs hf
      rw [heq, settledContributions_of_members hm hms] at hno ⊢
      refine List.mem_append_left _ (List.mem_flatMap.2 ⟨m, hmem, ih hnd ?_ hown ?_⟩)
      · exact fun p hp => (hkeep p).2 ⟨hps hp, fun hp' => hdis p hp' p hp rfl⟩
      · exact fun f hf => hno f (List.mem_append_left _ (List.mem_flatMap.2 ⟨m, hmem, hf⟩))

/-- What the end of a chain of references declares, itself or by a member. -/
theorem declares_of_settle {target : Value} (hs : doc.settle node = .ok target)
    (hm : target.isMap = true)
    (h : .property name schema required ∈ ownProperties target ∨
      ∃ ms m, members target = .ok ms ∧ m ∈ ms ∧ Declares doc m name schema required) :
    Declares doc node name schema required := by
  rcases h with hown | ⟨ms, m, hms, hmem, ps, part, hrest, hown⟩
  · exact ⟨_, target, .own hs hm, hown⟩
  · exact ⟨_, part, .member hs hm hms hmem hrest, hown⟩

/-- What a walk along a composition meets is declared by a part. -/
theorem declares_of_mem_contributions {unused : List String}
    (h : .property name schema required ∈ contributions doc unused node) :
    Declares doc node name schema required := by
  refine contributions_induction doc
    (fun _ node cs => .property name schema required ∈ cs → Declares doc node name schema required)
    (fun _ target cs => .property name schema required ∈ cs →
      target.isMap = true ∧ (.property name schema required ∈ ownProperties target ∨
        ∃ ms m, members target = .ok ms ∧ m ∈ ms ∧ Declares doc m name schema required))
    ?noReference ?fault ?followed ?cycle ?notText ?noMembers ?parts ?noMap unused node h
  case noReference =>
    intro unused node hr ih h
    obtain ⟨hm, h⟩ := ih h
    exact declares_of_settle
      (Document.settle_of_not_reference (by simp [Value.isReference, hr])) hm h
  case followed =>
    intro unused node p target hr hp hs ih h
    obtain ⟨hm, h⟩ := ih h
    exact declares_of_settle hs hm h
  case parts =>
    intro unused node ms hm hms ih h
    refine ⟨hm, ?_⟩
    rcases List.mem_append.1 h with h | h
    · obtain ⟨m, hmem, h⟩ := List.mem_flatMap.1 h
      exact .inr ⟨ms, m, hms, hmem, ih m hmem h⟩
    · exact .inl h
  case fault => simp
  case cycle => simp
  case notText => simp
  case noMembers => simp
  case noMap => simp

/-- The closure of a schema that can be walked holds what the parts of the schema declare, no
matter how its references go round in circles. -/
theorem mem_closure_iff (hno : ∀ f, .failure f ∉ closure doc node) :
    .property name schema required ∈ closure doc node ↔ Declares doc node name schema required := by
  refine ⟨declares_of_mem_contributions, fun ⟨ps, part, h, hown⟩ => ?_⟩
  obtain ⟨ps', h', hnodup, -⟩ := h.exists_nodup
  exact mem_contributions_of_composed h' hnodup h'.subset_reach.1 hown hno

/-- What a schema contributes, in order, when the chain of members that leads to it has followed
the pointers of `chain`. -/
inductive Lists (doc : Document) : List String → Value → List Contribution → Prop
  /-- A pointer that the chain has followed is not followed again. -/
  | cycle {chain : List String} {node : Value} {p : String}
      (hr : node.reference? = some (.str p)) (hp : p ∈ chain) :
      Lists doc chain node [.cycle p]
  /-- What is no mapping contributes nothing. -/
  | other {chain : List String} {node target : Value} (hnew : ∀ p ∈ followed node, p ∉ chain)
      (hs : doc.settle node = .ok target) (hm : target.isMap = false) :
      Lists doc chain node []
  /-- A mapping contributes what its members do, and then its own properties. -/
  | parts {chain : List String} {node target : Value} {ms : List Value}
      {rest : Value → List Contribution} (hnew : ∀ p ∈ followed node, p ∉ chain)
      (hs : doc.settle node = .ok target) (hm : target.isMap = true)
      (hms : members target = .ok ms)
      (hrest : ∀ m ∈ ms, Lists doc (chain ++ followed node) m (rest m)) :
      Lists doc chain node (ms.flatMap rest ++ ownProperties target)

theorem Lists.unique {chain : List String} {cs cs' : List Contribution}
    (h : Lists doc chain node cs) (h' : Lists doc chain node cs') : cs = cs' := by
  induction h generalizing cs' with
  | @cycle chain node p hr hp =>
      cases h' with
      | cycle hr' hp' =>
          obtain rfl := Scalar.str.inj (Value.scalar.inj (Option.some.inj (hr.symm.trans hr')))
          rfl
      | other hnew => exact absurd hp (hnew p (mem_followed.2 hr))
      | parts hnew => exact absurd hp (hnew p (mem_followed.2 hr))
  | @other chain node target hnew hs hm =>
      cases h' with
      | cycle hr hp => exact absurd hp (hnew _ (mem_followed.2 hr))
      | other => rfl
      | parts _ hs' hm' =>
          obtain rfl := Except.ok.inj (hs.symm.trans hs')
          exact absurd hm' (by simp [hm])
  | @parts chain node target ms rest hnew hs hm hms hrest ih =>
      cases h' with
      | cycle hr hp => exact absurd hp (hnew _ (mem_followed.2 hr))
      | other _ hs' hm' =>
          obtain rfl := Except.ok.inj (hs.symm.trans hs')
          exact absurd hm (by simp [hm'])
      | @parts _ _ _ _ rest' _ hs' _ hms' hrest' =>
          obtain rfl := Except.ok.inj (hs.symm.trans hs')
          obtain rfl := Except.ok.inj (hms.symm.trans hms')
          have heq : ms.flatMap rest = ms.flatMap rest' :=
            List.flatMap_congr fun m hm => ih m hm (hrest' m hm)
          rw [heq]

/-- The pointers that a chain may still follow are those it has not followed, as far as a walk
may meet them. -/
def Leaves (doc : Document) (chain unused : List String) (node : Value) : Prop :=
  ∀ p ∈ doc.reach node, p ∈ unused ↔ p ∉ chain

/-- What is left after a reference, for the members at its end. -/
theorem Leaves.enter {chain unused rest : List String} {target m : Value} {ms : List Value}
    (h : Leaves doc chain unused node) (hs : doc.settle node = .ok target)
    (hrest : ∀ p, p ∈ rest ↔ p ∈ unused ∧ p ∉ followed node)
    (hms : members target = .ok ms) (hm : m ∈ ms) :
    Leaves doc (chain ++ followed node) rest m := by
  intro p hp
  have hreach : p ∈ doc.reach node := by
    rcases List.mem_append.1 hp with hp | hp
    · exact Document.pointers_subset_of_settle hs (pointers_subset_of_members hms hm hp)
    · exact List.mem_append_right _ hp
  rw [hrest, h p hreach, List.mem_append]
  tauto

/-- A node lists what the end of its chain of references does. -/
theorem lists_of_settle {chain unused rest : List String} {target : Value}
    (hleaves : Leaves doc chain unused node) (hs : doc.settle node = .ok target)
    (hf : followed node ⊆ unused) (hrest : ∀ p, p ∈ rest ↔ p ∈ unused ∧ p ∉ followed node)
    (hno : ∀ f, .failure f ∉ settledContributions doc rest target)
    (ih : target.isMap = true → ∀ ms, members target = .ok ms → ∀ m ∈ ms, ∀ chain,
      Leaves doc chain rest m → Lists doc chain m (contributions doc rest m)) :
    Lists doc chain node (settledContributions doc rest target) := by
  have hnew : ∀ p ∈ followed node, p ∉ chain := by
    intro p hp
    have hreach : p ∈ doc.reach node :=
      List.mem_append_left _ (Value.mem_pointers_of_reference? (mem_followed.1 hp))
    exact (hleaves p hreach).1 (hf hp)
  by_cases hm : target.isMap = true
  · obtain ⟨ms, hms⟩ := exists_members_of_no_failure hm hno
    rw [settledContributions_of_members hm hms]
    exact .parts hnew hs hm hms fun m hmem =>
      ih hm ms hms m hmem _ (hleaves.enter hs hrest hms hmem)
  · rw [settledContributions, if_neg hm]
    exact .other hnew hs (by simpa using hm)

/-- What a walk along a composition meets is what the composition lists, if nothing fails. -/
theorem lists_contributions {chain unused : List String} (hleaves : Leaves doc chain unused node)
    (hno : ∀ f, .failure f ∉ contributions doc unused node) :
    Lists doc chain node (contributions doc unused node) := by
  refine contributions_induction doc
    (fun unused node cs => ∀ chain, Leaves doc chain unused node → (∀ f, .failure f ∉ cs) →
      Lists doc chain node cs)
    (fun unused target cs => (∀ f, .failure f ∉ cs) → target.isMap = true →
      ∀ ms, members target = .ok ms → ∀ m ∈ ms, ∀ chain, Leaves doc chain unused m →
        Lists doc chain m (contributions doc unused m))
    ?noReference ?fault ?followed ?cycle ?notText ?noMembers ?parts ?noMap
    unused node chain hleaves hno
  case noReference =>
    intro unused node hr ih chain hleaves hno
    have hs : doc.settle node = .ok node :=
      Document.settle_of_not_reference (by simp [Value.isReference, hr])
    exact lists_of_settle hleaves hs (by simp [followed, hr]) (by simp [followed, hr]) hno
      (ih hno)
  case followed =>
    intro unused node p target hr hp hs ih chain hleaves hno
    have hf : followed node = [p] := followed_eq_of_mem (mem_followed.2 hr)
    exact lists_of_settle hleaves hs (by simp [hf, hp]) (by simp [hf]) hno (ih hno)
  case cycle =>
    intro unused node p hr hp chain hleaves hno
    refine .cycle hr ?_
    by_contra hchain
    have hreach : p ∈ doc.reach node :=
      List.mem_append_left _ (Value.mem_pointers_of_reference? hr)
    exact hp ((hleaves p hreach).2 hchain)
  case parts =>
    intro unused node ms hm hms ih hno _ ms' hms' m hmem chain hleaves
    obtain rfl := Except.ok.inj (hms.symm.trans hms')
    refine ih m hmem chain hleaves fun f hf => hno f ?_
    exact List.mem_append_left _ (List.mem_flatMap.2 ⟨m, hmem, hf⟩)
  case noMembers =>
    intro unused node f hm hms hno _ ms hms'
    cases hms.symm.trans hms'
  case noMap =>
    intro unused node hm hno hmap
    exact absurd hmap hm
  -- A failure that stands alone contradicts that nothing fails.
  case fault =>
    intro unused node p f hr hp hs chain hleaves hno
    exact absurd (List.mem_singleton_self _) (hno f)
  case notText =>
    intro unused node pointer hr hne chain _ hno
    exact absurd (List.mem_singleton_self _) (hno _)

/-- The closure of a schema that can be walked is what its composition lists. -/
theorem lists_closure (hno : ∀ f, .failure f ∉ closure doc node) :
    Lists doc [] node (closure doc node) :=
  lists_contributions (fun p hp => by simp [hp]) hno

end Schema

end OpenApiClient
