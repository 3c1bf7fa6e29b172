import Sqry.Bind.Plane

/-!
The stable identities of scopes. An identity is a hash of the file, its content, the kind of the
scope and its extent; the reverse index keeps one scope for each identity, the one stamped last.
The index is not written and is built anew from the records when a graph is read back.
-/

namespace Sqry

namespace StableHash
variable {π : Type} (h : StableHash π)

def scopeBytes (fileStableId : FileStableId) (fileContentHash : List UInt8) (kind : ScopeKind)
    (byteSpan : Nat × Nat) : List UInt8 :=
  fileStableId ++ fileContentHash ++ [kind.discriminant] ++ toLeBytes byteSpan.1 ++
    toLeBytes byteSpan.2

def CollisionFree (inputs : List (List UInt8)) : Prop :=
  ∀ x ∈ inputs, ∀ y ∈ inputs, (h.blake3 x).take 16 = (h.blake3 y).take 16 → x = y

instance (inputs : List (List UInt8)) : Decidable (h.CollisionFree inputs) :=
  inferInstanceAs (Decidable (∀ x ∈ inputs, ∀ y ∈ inputs,
    (h.blake3 x).take 16 = (h.blake3 y).take 16 → x = y))

end StableHash

namespace ScopeProvenanceStore

def rebuildReverseIndex (s : ScopeProvenanceStore) (arena : ScopeArena) : ScopeProvenanceStore :=
  { s with
    reverseIndex := s.entries.foldl (fun index p =>
      if (arena.get p.1).isSome then index.insert p.2.stableId p.1 else index) ∅ }

def serialize (s : ScopeProvenanceStore) : List (Option (Nat × ScopeProvenance)) := s.slots

def deserialize (slots : List (Option (Nat × ScopeProvenance))) : ScopeProvenanceStore := ⟨slots, ∅⟩

end ScopeProvenanceStore

namespace GraphStores
variable {π : Type} [DecidableEq π] (g : GraphStores π)

/-- What makes a scope the one it is: the path of its file, the content of that, its kind and its
extent in 32 bits. -/
def scopeIdentity (hash : StableHash π) (scope : Scope) :
    Option (List UInt8) × List UInt8 × ScopeKind × Nat × Nat :=
  ((g.files.resolve scope.file).map hash.encodedBytes,
    (g.files.contentHashOf scope.file).getD (List.replicate 32 0), scope.kind,
    scope.byteSpan.1 % 2 ^ 32, scope.byteSpan.2 % 2 ^ 32)

def hashedFor (hash : StableHash π) (scope : Scope) : List (List UInt8) :=
  match g.files.resolve scope.file with
  | none => []
  | some path =>
    [hash.encodedBytes path,
      StableHash.scopeBytes (hash.fromRegistryPath path)
        ((g.files.contentHashOf scope.file).getD (List.replicate 32 0)) scope.kind scope.byteSpan]

end GraphStores

def ScopeIdsUnique {π μ δ : Type} [DecidableEq π] (g : CodeGraph π μ δ) : Prop :=
  ∀ id scope, (id, scope) ∈ g.scopeArena.iter → ∃ provenance,
    g.scopeProvenanceStore.lookup id = some provenance ∧
      g.scopeProvenanceStore.scopeByStableId provenance.stableId = some id

def ReverseIndexKept {π μ δ : Type} [DecidableEq π] (g : CodeGraph π μ δ) : Prop :=
  ∀ stable, ((ScopeProvenanceStore.deserialize
      g.scopeProvenanceStore.serialize).rebuildReverseIndex g.scopeArena).scopeByStableId stable =
    g.scopeProvenanceStore.scopeByStableId stable

section Bytes

theorem toLeBytes_eq_iff {n m : Nat} : toLeBytes n = toLeBytes m ↔ n % 2 ^ 32 = m % 2 ^ 32 := by
  have hbyte : ∀ a b : Nat, UInt8.ofNat (a % 256) = UInt8.ofNat (b % 256) ↔ a % 256 = b % 256 := by
    intro a b
    rw [← UInt8.toNat_inj, UInt8.toNat_ofNat', UInt8.toNat_ofNat', Nat.mod_mod, Nat.mod_mod]
  simp only [toLeBytes, List.map_cons, List.map_nil, List.cons.injEq, and_true, hbyte]
  omega

theorem discriminant_inj {k k' : ScopeKind} (h : k.discriminant = k'.discriminant) : k = k' := by
  revert h
  cases k <;> cases k' <;> decide

theorem scopeBytes_inj {f f' : FileStableId} {c c' : List UInt8} {k k' : ScopeKind}
    {s s' : Nat × Nat} (hlength : f.length = f'.length)
    (h : StableHash.scopeBytes f c k s = StableHash.scopeBytes f' c' k' s') :
    f = f' ∧ c = c' ∧ k = k' ∧ s.1 % 2 ^ 32 = s'.1 % 2 ^ 32 ∧ s.2 % 2 ^ 32 = s'.2 % 2 ^ 32 := by
  rw [StableHash.scopeBytes, StableHash.scopeBytes] at h
  obtain ⟨hfront, hstop⟩ := List.append_inj' h rfl
  obtain ⟨hfront, hstart⟩ := List.append_inj' hfront rfl
  obtain ⟨hfront, hkind⟩ := List.append_inj' hfront rfl
  obtain ⟨hfile, hcontent⟩ := List.append_inj hfront hlength
  exact ⟨hfile, hcontent, discriminant_inj (List.cons.inj hkind).1, toLeBytes_eq_iff.mp hstart,
    toLeBytes_eq_iff.mp hstop⟩

end Bytes

section Identity
variable {π : Type} [DecidableEq π] {g : GraphStores π} {hash : StableHash π} {factEpoch : Nat}

theorem stableId_eq_iff {scopes : List Scope} (hlength : ∀ bytes, (hash.blake3 bytes).length = 32)
    (hfree : hash.CollisionFree (scopes.flatMap (g.hashedFor hash))) {s s' : Scope}
    (hs : s ∈ scopes) (hs' : s' ∈ scopes) {p p' : ScopeProvenance}
    (hp : g.provenanceOf hash factEpoch s = some p)
    (hp' : g.provenanceOf hash factEpoch s' = some p') :
    p.stableId = p'.stableId ↔ g.scopeIdentity hash s = g.scopeIdentity hash s' := by
  rw [GraphStores.provenanceOf] at hp hp'
  cases hpath : g.files.resolve s.file with
  | none =>
    rw [hpath] at hp
    cases hp
  | some path =>
    cases hpath' : g.files.resolve s'.file with
    | none =>
      rw [hpath'] at hp'
      cases hp'
    | some path' =>
      have hinputs : g.hashedFor hash s = [hash.encodedBytes path,
          StableHash.scopeBytes (hash.fromRegistryPath path)
            ((g.files.contentHashOf s.file).getD (List.replicate 32 0)) s.kind s.byteSpan] := by
        rw [GraphStores.hashedFor, hpath]
      have hinputs' : g.hashedFor hash s' = [hash.encodedBytes path',
          StableHash.scopeBytes (hash.fromRegistryPath path')
            ((g.files.contentHashOf s'.file).getD (List.replicate 32 0)) s'.kind
            s'.byteSpan] := by
        rw [GraphStores.hashedFor, hpath']
      have hin : ∀ x ∈ g.hashedFor hash s, x ∈ scopes.flatMap (g.hashedFor hash) :=
        fun x hx => List.mem_flatMap.mpr ⟨s, hs, hx⟩
      have hin' : ∀ x ∈ g.hashedFor hash s', x ∈ scopes.flatMap (g.hashedFor hash) :=
        fun x hx => List.mem_flatMap.mpr ⟨s', hs', hx⟩
      rw [hinputs] at hin
      rw [hinputs'] at hin'
      rw [hpath] at hp
      rw [hpath'] at hp'
      cases hp
      cases hp'
      have hfiles : (hash.fromRegistryPath path).length =
          (hash.fromRegistryPath path').length := by
        rw [StableHash.fromRegistryPath, StableHash.fromRegistryPath, List.length_take,
          List.length_take, hlength, hlength]
      rw [GraphStores.scopeIdentity, GraphStores.scopeIdentity, hpath, hpath']
      simp only [Option.map_some, Prod.mk.injEq, Option.some.injEq]
      constructor
      · intro hstable
        have hbytes := hfree _ (hin _ (List.mem_cons_of_mem _ List.mem_cons_self)) _
          (hin' _ (List.mem_cons_of_mem _ List.mem_cons_self)) hstable
        obtain ⟨hfile, hrest⟩ := scopeBytes_inj hfiles hbytes
        exact ⟨hfree _ (hin _ List.mem_cons_self) _ (hin' _ List.mem_cons_self) hfile, hrest⟩
      · intro hsame
        obtain ⟨hfile, hcontent, hkind, hstart, hstop⟩ := hsame
        simp only [StableHash.computeScopeStableId, StableHash.fromRegistryPath, hfile,
          hcontent, hkind, toLeBytes_eq_iff.mpr hstart, toLeBytes_eq_iff.mpr hstop]

end Identity

namespace ScopeProvenanceStore

def insertAll (s : ScopeProvenanceStore) (records : List (ScopeId × ScopeProvenance)) :
    ScopeProvenanceStore :=
  records.foldl (fun s p => s.insert p.1 p.2) s

def fileAll (index : AList fun _ : ScopeStableId => ScopeId)
    (records : List (ScopeId × ScopeProvenance)) : AList fun _ : ScopeStableId => ScopeId :=
  records.foldl (fun index p => index.insert p.2.stableId p.1) index

theorem reverseIndex_insertAll (s : ScopeProvenanceStore)
    (records : List (ScopeId × ScopeProvenance)) :
    (s.insertAll records).reverseIndex = fileAll s.reverseIndex records := by
  induction records generalizing s with
  | nil => rfl
  | cons p records ih => exact ih (s.insert p.1 p.2)

theorem entriesFrom_set {start : Nat} {slots : List (Option (Nat × ScopeProvenance))} {i : Nat}
    {slot : Nat × ScopeProvenance} (hi : i < slots.length)
    (hempty : ∀ j : Nat, i ≤ j → slots[j]? = none ∨ slots[j]? = some none) :
    entriesFrom start (slots.set i (some slot)) =
      entriesFrom start slots ++ [(⟨start + i, slot.1⟩, slot.2)] := by
  have hrest : ∀ (start : Nat) (slots : List (Option (Nat × ScopeProvenance))),
      (∀ j : Nat, slots[j]? = none ∨ slots[j]? = some none) → entriesFrom start slots = [] := by
    intro start slots
    induction slots generalizing start with
    | nil => exact fun _ => rfl
    | cons first slots ih =>
      intro hall
      have hfirst := hall 0
      rw [List.getElem?_cons_zero] at hfirst
      cases first with
      | none => exact ih (start + 1) fun j => hall (j + 1)
      | some slot =>
        cases hfirst with
        | inl h => cases h
        | inr h => cases h
  induction slots generalizing start i with
  | nil => cases hi
  | cons first slots ih =>
    cases i with
    | zero =>
      have hfirst := hempty 0 (le_refl 0)
      have hlater := hrest (start + 1) slots fun j => hempty (j + 1) (Nat.zero_le _)
      cases first with
      | none =>
        rw [List.set_cons_zero, entriesFrom, entriesFrom, hlater]
        rfl
      | some slot =>
        cases hfirst with
        | inl h => cases h
        | inr h => cases h
    | succ i =>
      have hnext := @ih (start + 1) i (Nat.lt_of_succ_lt_succ hi) fun j hj =>
        hempty (j + 1) (Nat.succ_le_succ hj)
      rw [Nat.add_right_comm] at hnext
      cases first with
      | none =>
        rw [List.set_cons_succ, entriesFrom, entriesFrom, hnext]
        rfl
      | some slot =>
        rw [List.set_cons_succ, entriesFrom, entriesFrom, hnext]
        rfl

theorem entries_resizeTo (s : ScopeProvenanceStore) (slotCount : Nat) :
    (s.resizeTo slotCount).entries = s.entries := by
  have hpad : ∀ (n start : Nat) (slots : List (Option (Nat × ScopeProvenance))),
      entriesFrom start (slots ++ List.replicate n none) = entriesFrom start slots := by
    intro n start slots
    induction slots generalizing start with
    | nil =>
      induction n generalizing start with
      | zero => rfl
      | succ n ih => exact ih (start + 1)
    | cons first slots ih =>
      cases first with
      | none => exact ih (start + 1)
      | some slot =>
        rw [List.cons_append, entriesFrom, entriesFrom, ih]
  exact hpad _ 0 s.slots

theorem entries_insertAll {s : ScopeProvenanceStore} {records : List (ScopeId × ScopeProvenance)}
    (hsorted : (records.map fun p => p.1.index).Pairwise (· < ·))
    (hbehind : ∀ p ∈ records, ∀ q ∈ s.entries, q.1.index < p.1.index) :
    (s.insertAll records).entries = s.entries ++ records := by
  induction records generalizing s with
  | nil => exact (List.append_nil _).symm
  | cons p records ih =>
    rw [List.map_cons, List.pairwise_cons] at hsorted
    obtain ⟨hfirst, hrest⟩ := hsorted
    have hinsert : (s.insert p.1 p.2).entries = s.entries ++ [p] := by
      have hlt : p.1.index < (s.resizeTo (p.1.index + 1)).slots.length := by
        simp only [resizeTo, List.length_append, List.length_replicate]
        omega
      have hempty : ∀ j : Nat, p.1.index ≤ j → (s.resizeTo (p.1.index + 1)).slots[j]? = none ∨
          (s.resizeTo (p.1.index + 1)).slots[j]? = some none := by
        intro j hj
        cases hslot : (s.resizeTo (p.1.index + 1)).slots[j]? with
        | none => exact Or.inl rfl
        | some slot =>
          cases slot with
          | none => exact Or.inr rfl
          | some record =>
            have hentry : ((⟨j, record.1⟩, record.2) : ScopeId × ScopeProvenance) ∈
                (s.resizeTo (p.1.index + 1)).entries := mem_entries.mpr hslot
            rw [entries_resizeTo] at hentry
            have hless := hbehind p List.mem_cons_self _ hentry
            exact absurd hj (not_le.mpr hless)
      have hset := @entriesFrom_set 0 _ _ (p.1.generation, p.2) hlt hempty
      rw [Nat.zero_add] at hset
      refine hset.trans ?_
      rw [← entries_resizeTo s (p.1.index + 1)]
      rfl
    have hnext := @ih (s.insert p.1 p.2) hrest fun q hq r hr => ?_
    · rw [hinsert, List.append_assoc] at hnext
      exact hnext
    · rw [hinsert] at hr
      cases List.mem_append.mp hr with
      | inl hold => exact hbehind q (List.mem_cons_of_mem p hq) r hold
      | inr hnew =>
        rw [List.mem_singleton.mp hnew]
        exact hfirst _ (List.mem_map.mpr ⟨q, hq, rfl⟩)

theorem lookup_fileAll {index : AList fun _ : ScopeStableId => ScopeId}
    {records : List (ScopeId × ScopeProvenance)} {stable : ScopeStableId} {id : ScopeId}
    (h : (fileAll index records).lookup stable = some id) :
    index.lookup stable = some id ∨ ∃ p ∈ records, p.2.stableId = stable ∧ p.1 = id := by
  induction records generalizing index with
  | nil => exact Or.inl h
  | cons p records ih =>
    cases ih h with
    | inl hinsert =>
      by_cases hstable : stable = p.2.stableId
      · rw [hstable, AList.lookup_insert] at hinsert
        exact Or.inr ⟨p, List.mem_cons_self, hstable.symm, Option.some.inj hinsert⟩
      · rw [AList.lookup_insert_ne hstable] at hinsert
        exact Or.inl hinsert
    | inr hlater =>
      obtain ⟨q, hq, hrest⟩ := hlater
      exact Or.inr ⟨q, List.mem_cons_of_mem p hq, hrest⟩

theorem isSome_lookup_fileAll {index : AList fun _ : ScopeStableId => ScopeId}
    {records : List (ScopeId × ScopeProvenance)} {stable : ScopeStableId}
    (h : (index.lookup stable).isSome ∨ ∃ p ∈ records, p.2.stableId = stable) :
    ((fileAll index records).lookup stable).isSome := by
  induction records generalizing index with
  | nil =>
    cases h with
    | inl hindex => exact hindex
    | inr hrecord =>
      obtain ⟨p, hp, -⟩ := hrecord
      cases hp
  | cons p records ih =>
    refine ih ?_
    by_cases hstable : stable = p.2.stableId
    · rw [hstable, AList.lookup_insert]
      exact Or.inl rfl
    · rw [AList.lookup_insert_ne hstable]
      refine h.imp_right fun hrecord => ?_
      obtain ⟨q, hq, heq⟩ := hrecord
      cases List.mem_cons.mp hq with
      | inl hsame => exact absurd (hsame ▸ heq.symm) hstable
      | inr hin => exact ⟨q, hin, heq⟩

theorem lookup_fileAll_iff {records : List (ScopeId × ScopeProvenance)} :
    (∀ p ∈ records, (fileAll ∅ records).lookup p.2.stableId = some p.1) ↔
      ∀ p ∈ records, ∀ q ∈ records, p.2.stableId = q.2.stableId → p.1 = q.1 := by
  constructor
  · intro h p hp q hq hstable
    have hfirst := h p hp
    rw [hstable, h q hq] at hfirst
    exact (Option.some.inj hfirst).symm
  · intro h p hp
    obtain ⟨id, hid⟩ := Option.isSome_iff_exists.mp
      (@isSome_lookup_fileAll ∅ records _ (Or.inr ⟨p, hp, rfl⟩))
    cases lookup_fileAll hid with
    | inl hempty => cases hempty
    | inr hrecord =>
      obtain ⟨q, hq, hstable, heq⟩ := hrecord
      rw [hid, ← heq, h q hq p hp hstable]

end ScopeProvenanceStore

theorem ScopeArena.sorted_iter (a : ScopeArena) :
    (a.iter.map fun p => p.1.index).Pairwise (· < ·) := by
  have hfrom : ∀ (slots : List (Slot Scope)) (start : Nat),
      ((ScopeArena.iterFrom start slots).map fun p => p.1.index).Pairwise (· < ·) := by
    intro slots
    induction slots with
    | nil => exact fun _ => List.Pairwise.nil
    | cons slot slots ih =>
      intro start
      obtain ⟨generation, state⟩ := slot
      cases state with
      | vacant next => exact ih (start + 1)
      | occupied scope =>
        rw [ScopeArena.iterFrom, List.map_cons, List.pairwise_cons]
        refine ⟨fun index hmem => ?_, ih (start + 1)⟩
        obtain ⟨p, hp, hindex⟩ := List.mem_map.mp hmem
        have hle := (ScopeArena.mem_iterFrom.mp hp).1
        show start < index
        omega
  exact hfrom a.slots 0

section Listed
variable {π : Type} [DecidableEq π] {g : GraphStores π} {steps : Nat} {index : BindingEdgeIndex}
variable {arena : ScopeArena}

theorem listed_of_derived (h : g.deriveScopes steps index = some arena) :
    (∀ id scope, (id, scope) ∈ arena.iter → id.generation = 1 ∧ ∃ listed parent,
      g.listedScopes[id.index]? = some listed ∧ scope = { listed with parent := parent }) ∧
    ∀ (i : Nat) (listed : Scope), g.listedScopes[i]? = some listed →
      ∃ parent, (⟨i, 1⟩, { listed with parent := parent }) ∈ arena.iter := by
  obtain ⟨arena₀, nodeToScope, ha, hlen, hstamp⟩ := deriveScopes_eq_some h
  have hlength := (derivedScopes_of_derived h).length_le
  have hspec := stampParents_spec hstamp
  refine ⟨fun id scope hmem => ?_, fun i listed hlisted => ?_⟩
  · have hget := ScopeArena.get_of_mem_iter hlength hmem
    cases hget₀ : arena₀.get id with
    | none =>
      rw [((hspec id).2 hget₀).1] at hget
      cases hget
    | some listed =>
      obtain ⟨parent, hget', -⟩ := (hspec id).1 listed hget₀
      rw [hget] at hget'
      obtain ⟨-, slot, hslot, hgen, hscope⟩ := ScopeArena.get_eq_some.mp hget₀
      rw [ha.slots_eq, freshScopes, List.getElem?_map] at hslot
      obtain ⟨found, hfound, heq⟩ := Option.map_eq_some_iff.mp hslot
      cases heq
      cases hscope
      exact ⟨hgen.symm, listed, parent, hfound, Option.some.inj hget'⟩
  · have hlt := (List.getElem?_eq_some_iff.mp hlisted).1
    have hget₀ : arena₀.get ⟨i, 1⟩ = some listed := by
      refine ScopeArena.get_eq_some.mpr ⟨?_, ⟨1, .occupied listed⟩, ?_, rfl, rfl⟩
      · rw [ScopeId.isInvalid, decide_eq_false_iff_not]
        show i ≠ u32Max
        omega
      · rw [ha.slots_eq, freshScopes, List.getElem?_map, hlisted]
        rfl
    obtain ⟨parent, hget, -⟩ := (hspec ⟨i, 1⟩).1 listed hget₀
    exact ⟨parent, ScopeArena.mem_iter_of_get hget⟩

theorem nodup_listed_iff (h : g.deriveScopes steps index = some arena) (hash : StableHash π) :
    (g.listedScopes.map (g.scopeIdentity hash)).Nodup ↔
      ∀ p ∈ arena.iter, ∀ q ∈ arena.iter,
        g.scopeIdentity hash p.2 = g.scopeIdentity hash q.2 → p.1 = q.1 := by
  obtain ⟨hlive, hlisted⟩ := listed_of_derived h
  constructor
  · intro hnodup p hp q hq hsame
    obtain ⟨hpgen, s, parent, hs, hpeq⟩ := hlive p.1 p.2 hp
    obtain ⟨hqgen, t, parent', ht, hqeq⟩ := hlive q.1 q.2 hq
    have hidentity : g.scopeIdentity hash s = g.scopeIdentity hash t := by
      rw [hpeq, hqeq] at hsame
      exact hsame
    obtain ⟨hslt, hsget⟩ := List.getElem?_eq_some_iff.mp hs
    obtain ⟨htlt, htget⟩ := List.getElem?_eq_some_iff.mp ht
    have hindex : p.1.index = q.1.index := by
      rw [← List.length_map (g.scopeIdentity hash)] at hslt htlt
      refine (@List.Nodup.getElem_inj_iff _ _ hnodup _ hslt _ htlt).mp ?_
      rw [List.getElem_map, List.getElem_map, hsget, htget, hidentity]
    cases hpid : p.1 with
    | mk i generation =>
      cases hqid : q.1 with
      | mk j generation' =>
        rw [hpid] at hpgen hindex
        rw [hqid] at hqgen hindex
        cases hpgen
        cases hqgen
        cases hindex
        rfl
  · intro hdistinct
    rw [List.Nodup, List.pairwise_iff_getElem]
    intro i j hi hj hlt hsame
    rw [List.length_map] at hi hj
    rw [List.getElem_map, List.getElem_map] at hsame
    obtain ⟨parent, hp⟩ := hlisted i _ (List.getElem?_eq_getElem hi)
    obtain ⟨parent', hq⟩ := hlisted j _ (List.getElem?_eq_getElem hj)
    have hids := congrArg ScopeId.index (hdistinct _ hp _ hq hsame)
    exact absurd hids (Nat.ne_of_lt hlt)

theorem stampProvenance_eq {hash : StableHash π} {factEpoch : Nat} {l : List (ScopeId × Scope)}
    {store store' : ScopeProvenanceStore}
    (h : g.stampProvenance hash factEpoch l store = some store') :
    ∃ records, store' = store.insertAll records ∧
      List.Forall₂ (fun p r => r.1 = p.1 ∧ g.provenanceOf hash factEpoch p.2 = some r.2)
        l records := by
  induction l generalizing store with
  | nil =>
    cases h
    exact ⟨[], rfl, List.Forall₂.nil⟩
  | cons p l ih =>
    obtain ⟨id, scope⟩ := p
    simp only [GraphStores.stampProvenance] at h
    cases hprovenance : g.provenanceOf hash factEpoch scope with
    | none =>
      rw [hprovenance] at h
      cases h
    | some provenance =>
      simp only [hprovenance] at h
      obtain ⟨records, hstore, hrecords⟩ := ih h
      exact ⟨(id, provenance) :: records, hstore, .cons ⟨rfl, hprovenance⟩ hrecords⟩

theorem forall₂_mem {α β : Type} {R : α → β → Prop} {l : List α} {m : List β}
    (h : List.Forall₂ R l m) :
    (∀ a ∈ l, ∃ b ∈ m, R a b) ∧ ∀ b ∈ m, ∃ a ∈ l, R a b := by
  induction h with
  | nil => exact ⟨fun a ha => absurd ha List.not_mem_nil, fun b hb => absurd hb List.not_mem_nil⟩
  | cons hab _ ih =>
    obtain ⟨hleft, hright⟩ := ih
    refine ⟨List.forall_mem_cons.mpr ⟨⟨_, List.mem_cons_self, hab⟩, fun a ha => ?_⟩,
      List.forall_mem_cons.mpr ⟨⟨_, List.mem_cons_self, hab⟩, fun b hb => ?_⟩⟩
    · obtain ⟨b, hb, hrel⟩ := hleft a ha
      exact ⟨b, List.mem_cons_of_mem _ hb, hrel⟩
    · obtain ⟨a, ha, hrel⟩ := hright b hb
      exact ⟨a, List.mem_cons_of_mem _ ha, hrel⟩

end Listed

section Unique
variable {π μ δ : Type} [DecidableEq π] {hash : StableHash π} {steps : Nat}
variable {g g₀ : CodeGraph π μ δ} {stats : BindingDerivationStats}

theorem stamped_of_derive (h : g.deriveBindingPlaneGeneric hash steps = some (g₀, stats)) :
    g.deriveScopes steps (buildBindingEdgeIndex g.edges) = some g₀.scopeArena ∧
      g.stampProvenance hash g.factEpoch g₀.scopeArena.iter
        (ScopeProvenanceStore.new.resizeTo g₀.scopeArena.slotCount) =
          some g₀.scopeProvenanceStore := by
  simp only [CodeGraph.deriveBindingPlaneGeneric] at h
  split at h
  · cases h
  · rename_i arena harena
    split at h
    · cases h
    · split at h
      · cases h
      · split at h
        · cases h
        · rename_i store hstore
          cases h
          exact ⟨harena, hstore⟩

/-- The store after the derivation: one record for every live scope, in the order of the slots,
and the reverse index that filing them in this order makes. -/
structure Stamped (g : GraphStores π) (hash : StableHash π) (factEpoch : Nat) (arena : ScopeArena)
    (store : ScopeProvenanceStore) (records : List (ScopeId × ScopeProvenance)) : Prop where
  entries : store.entries = records
  reverseIndex : store.reverseIndex = ScopeProvenanceStore.fileAll ∅ records
  ofScope : ∀ p ∈ arena.iter, ∃ r ∈ records,
    r.1 = p.1 ∧ g.provenanceOf hash factEpoch p.2 = some r.2
  ofRecord : ∀ r ∈ records, ∃ p ∈ arena.iter,
    r.1 = p.1 ∧ g.provenanceOf hash factEpoch p.2 = some r.2

theorem exists_stamped (h : g.deriveBindingPlaneGeneric hash steps = some (g₀, stats)) :
    ∃ records, Stamped g.toGraphStores hash g.factEpoch g₀.scopeArena g₀.scopeProvenanceStore
      records := by
  obtain ⟨-, hstamp⟩ := stamped_of_derive h
  obtain ⟨records, hstore, hrecords⟩ := stampProvenance_eq hstamp
  have hempty : (ScopeProvenanceStore.new.resizeTo g₀.scopeArena.slotCount).entries = [] :=
    ScopeProvenanceStore.entries_resizeTo _ _
  have hindices : records.map (fun r => r.1.index) =
      g₀.scopeArena.iter.map fun p => p.1.index := by
    clear hstore hstamp
    generalize g₀.scopeArena.iter = scopes at hrecords
    induction hrecords with
    | nil => rfl
    | cons hpr _ ih => rw [List.map_cons, List.map_cons, ih, hpr.1]
  have hentries := @ScopeProvenanceStore.entries_insertAll
    (ScopeProvenanceStore.new.resizeTo g₀.scopeArena.slotCount) records
    (hindices ▸ ScopeArena.sorted_iter _) fun p _ q hq => by
      rw [hempty] at hq
      cases hq
  obtain ⟨hleft, hright⟩ := forall₂_mem hrecords
  refine ⟨records, ?_, ?_, hleft, fun r hr => ?_⟩
  · rw [hstore, hentries, hempty]
    rfl
  · rw [hstore, ScopeProvenanceStore.reverseIndex_insertAll]
    rfl
  · obtain ⟨p, hp, hrel⟩ := hright r hr
    exact ⟨p, hp, hrel⟩

theorem reverseIndexKept_of_derive
    (h : g.deriveBindingPlaneGeneric hash steps = some (g₀, stats)) : ReverseIndexKept g₀ := by
  obtain ⟨records, hstamped⟩ := exists_stamped h
  obtain ⟨harena, -⟩ := stamped_of_derive h
  have hlength := (derivedScopes_of_derived harena).length_le
  have hlive : ∀ r ∈ records, (g₀.scopeArena.get r.1).isSome = true := by
    intro r hr
    obtain ⟨p, hp, heq, -⟩ := hstamped.ofRecord r hr
    rw [heq, ScopeArena.get_of_mem_iter hlength hp]
    rfl
  have hread : (ScopeProvenanceStore.deserialize
      g₀.scopeProvenanceStore.serialize).entries = records := hstamped.entries
  intro stable
  have hrebuilt : ((ScopeProvenanceStore.deserialize
      g₀.scopeProvenanceStore.serialize).rebuildReverseIndex g₀.scopeArena).reverseIndex =
        g₀.scopeProvenanceStore.reverseIndex := by
    rw [ScopeProvenanceStore.rebuildReverseIndex, hread, hstamped.reverseIndex,
      ScopeProvenanceStore.fileAll]
    refine List.foldl_ext _ _ _ fun index r hr => ?_
    rw [if_pos (hlive r hr)]
  rw [ScopeProvenanceStore.scopeByStableId, ScopeProvenanceStore.scopeByStableId, hrebuilt]

theorem scopeIdsUnique_iff_records {records : List (ScopeId × ScopeProvenance)}
    (h : Stamped g.toGraphStores hash g.factEpoch g₀.scopeArena g₀.scopeProvenanceStore records) :
    ScopeIdsUnique g₀ ↔
      ∀ r ∈ records, ∀ q ∈ records, r.2.stableId = q.2.stableId → r.1 = q.1 := by
  have hlookup : ∀ r ∈ records, g₀.scopeProvenanceStore.lookup r.1 = some r.2 := by
    intro r hr
    rw [← h.entries] at hr
    rw [ScopeProvenanceStore.lookup, ScopeProvenanceStore.mem_entries.mp hr]
    simp
  have hstable : ∀ stable, g₀.scopeProvenanceStore.scopeByStableId stable =
      (ScopeProvenanceStore.fileAll ∅ records).lookup stable := by
    intro stable
    rw [ScopeProvenanceStore.scopeByStableId, h.reverseIndex]
  rw [← ScopeProvenanceStore.lookup_fileAll_iff]
  constructor
  · intro hunique r hr
    obtain ⟨p, hp, heq, -⟩ := h.ofRecord r hr
    obtain ⟨provenance, hfound, hnamed⟩ := hunique p.1 p.2 hp
    rw [← heq, hlookup r hr] at hfound
    cases hfound
    rw [← hstable, hnamed, heq]
  · intro hfiled id scope hmem
    obtain ⟨r, hr, heq, -⟩ := h.ofScope (id, scope) hmem
    have hid : r.1 = id := heq
    exact ⟨r.2, hid ▸ hlookup r hr, by rw [hstable, hfiled r hr, hid]⟩

theorem scopeIdsUnique_iff_listed
    (hderive : g.deriveBindingPlaneGeneric hash steps = some (g₀, stats))
    (hlength : ∀ bytes, (hash.blake3 bytes).length = 32)
    (hfree : hash.CollisionFree (g.listedScopes.flatMap (g.hashedFor hash))) :
    ScopeIdsUnique g₀ ↔ (g.listedScopes.map (g.scopeIdentity hash)).Nodup := by
  obtain ⟨records, hstamped⟩ := exists_stamped hderive
  obtain ⟨harena, -⟩ := stamped_of_derive hderive
  rw [scopeIdsUnique_iff_records hstamped, nodup_listed_iff harena hash]
  -- A live scope has the identity of a listed one, so their hashes do not collide.
  have hstable : ∀ p ∈ g₀.scopeArena.iter, ∀ q ∈ g₀.scopeArena.iter, ∀ a b,
      g.provenanceOf hash g.factEpoch p.2 = some a → g.provenanceOf hash g.factEpoch q.2 = some b →
        (a.stableId = b.stableId ↔ g.scopeIdentity hash p.2 = g.scopeIdentity hash q.2) := by
    intro p hp q hq a b ha hb
    obtain ⟨-, s, parent, hs, hpeq⟩ := (listed_of_derived harena).1 p.1 p.2 hp
    obtain ⟨-, t, parent', ht, hqeq⟩ := (listed_of_derived harena).1 q.1 q.2 hq
    rw [hpeq] at ha ⊢
    rw [hqeq] at hb ⊢
    exact stableId_eq_iff hlength hfree (List.mem_of_getElem? hs) (List.mem_of_getElem? ht) ha hb
  constructor
  · intro h p hp q hq hsame
    obtain ⟨r, hr, hrp, hrprov⟩ := hstamped.ofScope p hp
    obtain ⟨t, ht, htq, htprov⟩ := hstamped.ofScope q hq
    rw [← hrp, ← htq]
    exact h r hr t ht ((hstable p hp q hq _ _ hrprov htprov).mpr hsame)
  · intro h r hr t ht hsame
    obtain ⟨p, hp, hrp, hrprov⟩ := hstamped.ofRecord r hr
    obtain ⟨q, hq, htq, htprov⟩ := hstamped.ofRecord t ht
    rw [hrp, htq]
    exact h p hp q hq ((hstable p hp q hq _ _ hrprov htprov).mp hsame)

end Unique

/-- Stable identities name their scopes exactly when no two scopes that are derived have the same
file, content, kind and extent. What the records say of them is read back in any case. -/
theorem scope_ids_unique_iff {π μ δ : Type} [DecidableEq π] (hash : StableHash π) (steps : Nat)
    (g g₀ : CodeGraph π μ δ) (stats : BindingDerivationStats)
    (hderive : g.deriveBindingPlaneGeneric hash steps = some (g₀, stats))
    (hlength : ∀ bytes, (hash.blake3 bytes).length = 32)
    (hfree : hash.CollisionFree (g.listedScopes.flatMap (g.hashedFor hash))) :
    (ScopeIdsUnique g₀ ∧ ReverseIndexKept g₀) ↔
      (g.listedScopes.map (g.scopeIdentity hash)).Nodup := by
  rw [and_iff_left (reverseIndexKept_of_derive hderive)]
  exact scopeIdsUnique_iff_listed hderive hlength hfree

section Instances

def sameExtent (first second : NodeKind) : CodeGraph String Unit Unit :=
  { (CodeGraph.new : CodeGraph String Unit Unit) with
    nodes := ⟨[⟨1, .occupied (FullNodeEntry.new first (.ofUInt8 1) 1)⟩,
      ⟨1, .occupied (FullNodeEntry.new second (.ofUInt8 2) 1)⟩], none, 2⟩
    files := (Registry.FileRegistry.new.registerCanonical "a.rs").1
    indices := ((AuxiliaryIndices.new.add ⟨0, 1⟩ first (.ofUInt8 1) none 1).1.add ⟨1, 1⟩ second
      (.ofUInt8 2) none 1).1 }

def pathDigest : List UInt8 :=
  [95, 240, 170, 3, 43, 25, 229, 119, 248, 98, 82, 121, 172, 171, 10, 221, 185, 137, 85, 245, 82,
   226, 153, 174, 110, 78, 52, 41, 176, 202, 89, 28]

def functionDigest : List UInt8 :=
  [104, 65, 240, 224, 216, 10, 15, 128, 55, 207, 202, 144, 46, 212, 63, 12, 244, 22, 120, 230, 43,
   134, 69, 30, 126, 193, 43, 63, 3, 181, 252, 192]

def classDigest : List UInt8 :=
  [241, 46, 41, 243, 17, 140, 154, 86, 31, 62, 103, 238, 77, 152, 153, 190, 71, 38, 95, 0, 215,
   211, 107, 82, 3, 235, 8, 237, 13, 118, 247, 74]

def knownDigests : StableHash String where
  blake3 bytes :=
    if bytes = [97, 46, 114, 115] then pathDigest
    else if bytes = StableHash.scopeBytes (pathDigest.take 16) (List.replicate 32 0) .function (0, 0)
      then functionDigest
    else classDigest
  encodedBytes path := path.toList.map fun c => UInt8.ofNat c.toNat

theorem length_knownDigests (bytes : List UInt8) : (knownDigests.blake3 bytes).length = 32 := by
  simp only [knownDigests]
  split
  · rfl
  · split <;> rfl

/-- A class and a struct both make a scope of the one kind. -/
theorem class_and_struct_share_id : ∃ g₀ stats,
    (sameExtent .class .struct).deriveBindingPlaneGeneric knownDigests 2 = some (g₀, stats) ∧
      knownDigests.CollisionFree ((sameExtent .class .struct).listedScopes.flatMap
        ((sameExtent .class .struct).hashedFor knownDigests)) ∧ ¬ ScopeIdsUnique g₀ := by
  obtain ⟨⟨g₀, stats⟩, hderive⟩ := Option.isSome_iff_exists.mp (show
    ((sameExtent .class .struct).deriveBindingPlaneGeneric knownDigests 2).isSome = true from rfl)
  have hfree : knownDigests.CollisionFree ((sameExtent .class .struct).listedScopes.flatMap
      ((sameExtent .class .struct).hashedFor knownDigests)) := by decide
  refine ⟨g₀, stats, hderive, hfree, ?_⟩
  rw [scopeIdsUnique_iff_listed hderive length_knownDigests hfree]
  decide

theorem scope_ids_unique_iff_function_and_class : ∃ g₀ stats,
    (sameExtent .function .class).deriveBindingPlaneGeneric knownDigests 2 = some (g₀, stats) ∧
      ((ScopeIdsUnique g₀ ∧ ReverseIndexKept g₀) ↔
        ((sameExtent .function .class).listedScopes.map
          ((sameExtent .function .class).scopeIdentity knownDigests)).Nodup) := by
  obtain ⟨⟨g₀, stats⟩, hderive⟩ := Option.isSome_iff_exists.mp (show
    ((sameExtent .function .class).deriveBindingPlaneGeneric knownDigests 2).isSome = true from rfl)
  exact ⟨g₀, stats, hderive, scope_ids_unique_iff knownDigests 2 _ g₀ stats hderive
    length_knownDigests (by decide)⟩

end Instances

end Sqry
