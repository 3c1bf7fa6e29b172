import Mathlib.Data.List.Infix
import Sqry.Lib.Directory
import Sqry.Lib.OrderedEntries

/-!
The names a persist leaves in `.sqry/graph` and what a listing makes of them. A rollback tag
is the number that orders it; a set is what one transaction left.
-/

namespace Sqry.Rollback

inductive FileName
  | manifest
  | snapshot
  | manifestAside (tag : Nat)
  | snapshotAside (tag : Nat)
  | snapshotPartial (tag : Nat)
  | begun (tag : Nat)
  | committed (tag : Nat)
  deriving DecidableEq

inductive FileContent
  | manifest (writtenBy : Nat)
  | snapshot (writtenBy : Nat)
  | marker (text : String)
  deriving DecidableEq

abbrev GraphDir := Directory FileName FileContent

abbrev GraphFile := Directory.File FileContent

def FileName.tag : FileName → Option Nat
  | .manifest | .snapshot => none
  | .manifestAside t | .snapshotAside t | .snapshotPartial t | .begun t | .committed t => some t

def bit (b : Bool) : String := if b then "1" else "0"

def begunText (snapshotExisted manifestExisted : Bool) : String :=
  "begun snapshot_existed=" ++ bit snapshotExisted ++ " manifest_existed=" ++
    bit manifestExisted ++ "\n"

def markerSaysNoSnapshot : FileContent → Bool
  | .marker text => decide ("snapshot_existed=0".toList <:+: text.toList)
  | .manifest _ | .snapshot _ => false

structure RollbackSet where
  manifestAside : Option FileName := none
  snapshotAside : Option FileName := none
  begun : Option FileName := none
  begunWithoutSnapshot : Bool := false
  committed : Option FileName := none
  other : List FileName := []
  deriving DecidableEq

inductive SnapshotRestore
  | putBack
  | removeNew
  | keep
  deriving DecidableEq

inductive SetFate
  | discard
  | restore (snapshot : SnapshotRestore) (manifestBack : Bool)
  deriving DecidableEq

namespace RollbackSet

def note (name : FileName) (saysNoSnapshot : Bool) (set : RollbackSet) : RollbackSet :=
  match name with
  | .manifest | .snapshot => set
  | .manifestAside _ => { set with manifestAside := some name }
  | .snapshotAside _ => { set with snapshotAside := some name }
  | .begun _ => { set with begunWithoutSnapshot := saysNoSnapshot, begun := some name }
  | .committed _ => { set with committed := some name }
  | .snapshotPartial _ => { set with other := set.other ++ [name] }

def fate (set : RollbackSet) (manifestPresent : Bool) : SetFate :=
  if set.committed.isSome || manifestPresent then .discard
  else
    let snapshot :=
      if set.snapshotAside.isSome then .putBack
      else if set.begunWithoutSnapshot then .removeNew
      else .keep
    .restore snapshot set.manifestAside.isSome

def names (set : RollbackSet) : List FileName :=
  set.manifestAside.toList ++ set.snapshotAside.toList ++ set.other ++
    (set.begun.toList ++ set.committed.toList)

end RollbackSet

structure RollbackListing where
  sets : List (Nat × RollbackSet) := []

namespace RollbackListing

def add (listing : RollbackListing) (entry : FileName × Bool) : RollbackListing :=
  match entry.1.tag with
  | none => listing
  | some order => ⟨OrderedEntries.modify {} order (RollbackSet.note entry.1 entry.2) listing.sets⟩

def ofEntries (entries : List (FileName × Bool)) : RollbackListing := entries.foldl add {}

def leavesFrom : List (Nat × RollbackSet) → Bool → Bool → Bool
  | [], manifest, snapshot => manifest || snapshot
  | (_, set) :: sets, manifest, snapshot =>
    match set.fate manifest with
    | .discard => leavesFrom sets manifest snapshot
    | .restore restore manifestBack =>
      leavesFrom sets (manifest || manifestBack) <|
        match restore with
        | .putBack => true
        | .removeNew => false
        | .keep => snapshot

def leavesAnIndex (listing : RollbackListing) (manifest snapshot : Bool) : Bool :=
  leavesFrom listing.sets manifest snapshot

end RollbackListing

def entriesOf (d : GraphDir) : List (FileName × Bool) :=
  d.entries.entries.map fun e => (e.1, markerSaysNoSnapshot e.2.content)

def RollbackListing.of (d : GraphDir) : RollbackListing := .ofEntries (entriesOf d)

@[simp] theorem markerSaysNoSnapshot_begunText (s m : Bool) :
    markerSaysNoSnapshot (.marker (begunText s m)) = !s := by
  cases s <;> cases m <;> decide

theorem mem_entriesOf {d : GraphDir} {n : FileName} {b : Bool} :
    (n, b) ∈ entriesOf d ↔ ∃ f, d.get n = some f ∧ markerSaysNoSnapshot f.content = b := by
  rw [entriesOf, List.mem_map]
  constructor
  · intro h
    obtain ⟨⟨m, f⟩, hmem, heq⟩ := h
    cases heq
    exact ⟨f, AList.mem_lookup_iff.2 hmem, rfl⟩
  · intro h
    obtain ⟨f, hget, rfl⟩ := h
    exact ⟨⟨n, f⟩, AList.mem_lookup_iff.1 hget, rfl⟩

/-- The set `set` of tag `t` has the names of the tag that are `Present`. -/
structure RollbackSet.Names (t : Nat) (Present : FileName → Prop) (set : RollbackSet) : Prop where
  manifestAside : ∀ n, set.manifestAside = some n ↔ n = .manifestAside t ∧ Present n
  snapshotAside : ∀ n, set.snapshotAside = some n ↔ n = .snapshotAside t ∧ Present n
  begun : ∀ n, set.begun = some n ↔ n = .begun t ∧ Present n
  committed : ∀ n, set.committed = some n ↔ n = .committed t ∧ Present n
  other : ∀ n, n ∈ set.other ↔ n = .snapshotPartial t ∧ Present n

namespace RollbackSet.Names

variable {t : Nat} {Present Present' : FileName → Prop} {set : RollbackSet} {n : FileName}

theorem empty : RollbackSet.Names t (fun _ => False) {} := by
  refine ⟨fun n => ?_, fun n => ?_, fun n => ?_, fun n => ?_, fun n => ?_⟩ <;> simp

theorem congr (h : set.Names t Present) (hp : ∀ n, n.tag = some t → (Present n ↔ Present' n)) :
    set.Names t Present' where
  manifestAside n := by
    rw [h.manifestAside n]
    exact and_congr_right fun heq => hp n (heq ▸ rfl)
  snapshotAside n := by
    rw [h.snapshotAside n]
    exact and_congr_right fun heq => hp n (heq ▸ rfl)
  begun n := by
    rw [h.begun n]
    exact and_congr_right fun heq => hp n (heq ▸ rfl)
  committed n := by
    rw [h.committed n]
    exact and_congr_right fun heq => hp n (heq ▸ rfl)
  other n := by
    rw [h.other n]
    exact and_congr_right fun heq => hp n (heq ▸ rfl)

theorem isSome_manifestAside (h : set.Names t Present) :
    set.manifestAside.isSome ↔ Present (.manifestAside t) := by
  rw [Option.isSome_iff_exists]
  constructor
  · intro hsome
    obtain ⟨n, hn⟩ := hsome
    obtain ⟨rfl, hp⟩ := (h.manifestAside n).1 hn
    exact hp
  · intro hp
    exact ⟨_, (h.manifestAside _).2 ⟨rfl, hp⟩⟩

theorem isSome_snapshotAside (h : set.Names t Present) :
    set.snapshotAside.isSome ↔ Present (.snapshotAside t) := by
  rw [Option.isSome_iff_exists]
  constructor
  · intro hsome
    obtain ⟨n, hn⟩ := hsome
    obtain ⟨rfl, hp⟩ := (h.snapshotAside n).1 hn
    exact hp
  · intro hp
    exact ⟨_, (h.snapshotAside _).2 ⟨rfl, hp⟩⟩

theorem isSome_committed (h : set.Names t Present) :
    set.committed.isSome ↔ Present (.committed t) := by
  rw [Option.isSome_iff_exists]
  constructor
  · intro hsome
    obtain ⟨n, hn⟩ := hsome
    obtain ⟨rfl, hp⟩ := (h.committed n).1 hn
    exact hp
  · intro hp
    exact ⟨_, (h.committed _).2 ⟨rfl, hp⟩⟩

theorem mem_names (h : set.Names t Present) : n ∈ set.names ↔ n.tag = some t ∧ Present n := by
  simp only [RollbackSet.names, List.mem_append, Option.mem_toList, h.manifestAside,
    h.snapshotAside, h.begun, h.committed, h.other]
  cases n with
  | manifest | snapshot => simp [FileName.tag]
  | manifestAside u | snapshotAside u | snapshotPartial u | begun u | committed u =>
    simp [FileName.tag]

theorem note (h : set.Names t Present) (hn : n.tag = some t) (b : Bool) :
    (set.note n b).Names t (fun m => m = n ∨ Present m) := by
  obtain ⟨h₁, h₂, h₃, h₄, h₅⟩ := h
  cases n with
  | manifest | snapshot => cases hn
  | manifestAside u | snapshotAside u | begun u | committed u | snapshotPartial u =>
    cases hn
    refine ⟨fun m => ?_, fun m => ?_, fun m => ?_, fun m => ?_, fun m => ?_⟩ <;>
      simp only [RollbackSet.note, List.mem_append, List.mem_singleton, Option.some.injEq, h₁, h₂,
        h₃, h₄, h₅] <;>
      grind

end RollbackSet.Names

def setOf (t : Nat) (entries : List (FileName × Bool)) : RollbackSet :=
  entries.foldl (fun set e => if e.1.tag = some t then set.note e.1 e.2 else set) {}

def Tagged (t : Nat) (entries : List (FileName × Bool)) : Prop :=
  ∃ e ∈ entries, e.1.tag = some t

section SetOf

variable {t : Nat} {entries : List (FileName × Bool)} {e : FileName × Bool}

theorem setOf_append : setOf t (entries ++ [e]) =
    if e.1.tag = some t then (setOf t entries).note e.1 e.2 else setOf t entries := by
  rw [setOf, List.foldl_append]
  rfl

theorem tagged_append : Tagged t (entries ++ [e]) ↔ Tagged t entries ∨ e.1.tag = some t := by
  simp [Tagged, or_and_right, exists_or]

theorem setOf_of_not_tagged (h : ¬ Tagged t entries) : setOf t entries = {} := by
  induction entries using List.reverseRecOn with
  | nil => rfl
  | append_singleton es e ih =>
    rw [tagged_append, not_or] at h
    rw [setOf_append, if_neg h.2, ih h.1]

theorem names_setOf :
    (setOf t entries).Names t (fun n => ∃ b, (n, b) ∈ entries) := by
  induction entries using List.reverseRecOn with
  | nil => exact RollbackSet.Names.empty.congr fun n _ => by simp
  | append_singleton es e ih =>
    rw [setOf_append]
    by_cases ht : e.1.tag = some t
    · rw [if_pos ht]
      refine (ih.note ht e.2).congr fun n _ => ?_
      constructor
      · intro h
        cases h with
        | inl heq => exact ⟨e.2, by simp [heq]⟩
        | inr hex =>
          obtain ⟨b, hb⟩ := hex
          exact ⟨b, List.mem_append_left _ hb⟩
      · intro h
        obtain ⟨b, hb⟩ := h
        cases List.mem_append.1 hb with
        | inl hb => exact Or.inr ⟨b, hb⟩
        | inr hb =>
          cases List.mem_singleton.1 hb
          exact Or.inl rfl
    · rw [if_neg ht]
      refine ih.congr fun n hn => ?_
      constructor
      · intro h
        obtain ⟨b, hb⟩ := h
        exact ⟨b, List.mem_append_left _ hb⟩
      · intro h
        obtain ⟨b, hb⟩ := h
        cases List.mem_append.1 hb with
        | inl hb => exact ⟨b, hb⟩
        | inr hb =>
          cases List.mem_singleton.1 hb
          exact absurd hn ht

theorem note_begunWithoutSnapshot (set : RollbackSet) (n : FileName) (b : Bool)
    (hn : n.tag = some t) : (set.note n b).begunWithoutSnapshot =
      if n = .begun t then b else set.begunWithoutSnapshot := by
  cases n with
  | manifest | snapshot => cases hn
  | manifestAside u | snapshotAside u | snapshotPartial u | committed u =>
    simp [RollbackSet.note]
  | begun u =>
    cases hn
    simp [RollbackSet.note]

theorem begunWithoutSnapshot_setOf (t : Nat) (entries : List (FileName × Bool)) :
    (∀ b, (FileName.begun t, b) ∉ entries) ∧ (setOf t entries).begunWithoutSnapshot = false ∨
      (FileName.begun t, (setOf t entries).begunWithoutSnapshot) ∈ entries := by
  induction entries using List.reverseRecOn with
  | nil => exact Or.inl ⟨by simp, rfl⟩
  | append_singleton es e ih =>
    obtain ⟨n, b⟩ := e
    rw [setOf_append]
    by_cases ht : n.tag = some t
    · rw [if_pos ht, note_begunWithoutSnapshot _ _ _ ht]
      by_cases hn : n = .begun t
      · rw [if_pos hn]
        exact Or.inr (by simp [hn])
      · rw [if_neg hn]
        refine ih.imp (fun h => ⟨fun c hc => ?_, h.2⟩) fun h => List.mem_append_left _ h
        cases List.mem_append.1 hc with
        | inl hc => exact h.1 c hc
        | inr hc =>
          cases List.mem_singleton.1 hc
          exact hn rfl
    · rw [if_neg ht]
      refine ih.imp (fun h => ⟨fun c hc => ?_, h.2⟩) fun h => List.mem_append_left _ h
      cases List.mem_append.1 hc with
      | inl hc => exact h.1 c hc
      | inr hc =>
        cases List.mem_singleton.1 hc
        exact ht rfl

theorem sorted_ofEntries : OrderedEntries.Sorted (RollbackListing.ofEntries entries).sets := by
  induction entries using List.reverseRecOn with
  | nil => exact List.Pairwise.nil
  | append_singleton es e ih =>
    rw [RollbackListing.ofEntries, List.foldl_append]
    change OrderedEntries.Sorted (RollbackListing.add (RollbackListing.ofEntries es) e).sets
    rw [RollbackListing.add]
    split
    · exact ih
    · exact OrderedEntries.sorted_modify ih

open Classical in
theorem find_ofEntries : OrderedEntries.find t (RollbackListing.ofEntries entries).sets =
    if Tagged t entries then some (setOf t entries) else none := by
  induction entries using List.reverseRecOn with
  | nil => simp [RollbackListing.ofEntries, Tagged]
  | append_singleton es e ih =>
    rw [RollbackListing.ofEntries, List.foldl_append]
    change OrderedEntries.find t (RollbackListing.add (RollbackListing.ofEntries es) e).sets = _
    rw [RollbackListing.add, tagged_append, setOf_append]
    split
    · next hnone =>
      simp [hnone, ih]
    · next u hu =>
      rw [OrderedEntries.find_modify sorted_ofEntries, hu]
      by_cases htu : t = u
      · subst htu
        rw [if_pos rfl, if_pos (Or.inr rfl), if_pos rfl, ih]
        by_cases hmem : Tagged t es
        · rw [if_pos hmem]
          rfl
        · rw [if_neg hmem, setOf_of_not_tagged hmem]
          rfl
      · have hut : ¬ some u = some t := fun h => htu (Option.some.inj h).symm
        rw [if_neg htu, if_neg hut, ih]
        simp [hut]

theorem mem_ofEntries {set : RollbackSet} :
    (t, set) ∈ (RollbackListing.ofEntries entries).sets ↔
      Tagged t entries ∧ set = setOf t entries := by
  rw [OrderedEntries.mem_iff_find sorted_ofEntries, find_ofEntries]
  by_cases h : Tagged t entries <;> simp [h, eq_comm]

end SetOf

structure Lists (d : GraphDir) (sets : List (Nat × RollbackSet)) : Prop where
  sorted : OrderedEntries.Sorted sets
  names : ∀ {t set}, (t, set) ∈ sets → set.Names t (fun n => ∃ f, d.get n = some f)
  marked : ∀ {t set}, (t, set) ∈ sets → (set.begunWithoutSnapshot = true ↔
    ∃ f, d.get (.begun t) = some f ∧ markerSaysNoSnapshot f.content = true)
  covers : ∀ {n f t}, d.get n = some f → n.tag = some t → ∃ set, (t, set) ∈ sets
  inhabited : ∀ {t set}, (t, set) ∈ sets → ∃ n f, d.get n = some f ∧ n.tag = some t

structure Met (d : GraphDir) (entries : List (FileName × Bool)) : Prop where
  sound : ∀ {n b}, (n, b) ∈ entries → ∃ f, d.get n = some f
  marked : ∀ {t b}, (FileName.begun t, b) ∈ entries →
    ∃ f, d.get (.begun t) = some f ∧ markerSaysNoSnapshot f.content = b

/-- The entries are all of the directory's, in some order. -/
structure Reads (d : GraphDir) (entries : List (FileName × Bool)) : Prop
    extends Met d entries where
  complete : ∀ {n f}, d.get n = some f → ∃ b, (n, b) ∈ entries

theorem reads_entriesOf (d : GraphDir) : Reads d (entriesOf d) where
  sound h := (mem_entriesOf.1 h).imp fun _ hf => hf.1
  marked := mem_entriesOf.1
  complete hf := ⟨_, mem_entriesOf.2 ⟨_, hf, rfl⟩⟩

namespace Reads

variable {d : GraphDir} {entries entries' : List (FileName × Bool)} {t : Nat}

theorem names (h : Reads d entries) :
    (setOf t entries).Names t (fun n => ∃ f, d.get n = some f) := by
  refine names_setOf.congr fun n _ => ⟨fun hb => ?_, fun hf => ?_⟩
  · obtain ⟨b, hb⟩ := hb
    exact h.sound hb
  · obtain ⟨f, hf⟩ := hf
    exact h.complete hf

theorem begunWithoutSnapshot (h : Reads d entries) : (setOf t entries).begunWithoutSnapshot = true ↔
    ∃ f, d.get (.begun t) = some f ∧ markerSaysNoSnapshot f.content = true := by
  have hread := begunWithoutSnapshot_setOf t entries
  constructor
  · intro hs
    cases hread with
    | inl hno => simp [hno.2] at hs
    | inr hmem => exact hs ▸ h.marked hmem
  · intro hf
    obtain ⟨f, hf, hmark⟩ := hf
    cases hread with
    | inl hno =>
      obtain ⟨b, hb⟩ := h.complete hf
      exact absurd hb (hno.1 b)
    | inr hmem =>
      obtain ⟨g, hg, hb⟩ := h.marked hmem
      rw [hf] at hg
      cases hg
      exact hb.symm.trans hmark

theorem tagged (h : Reads d entries) :
    Tagged t entries ↔ ∃ n f, d.get n = some f ∧ n.tag = some t := by
  constructor
  · intro htag
    obtain ⟨⟨n, b⟩, hmem, ht⟩ := htag
    obtain ⟨f, hf⟩ := h.sound hmem
    exact ⟨n, f, hf, ht⟩
  · intro hname
    obtain ⟨n, f, hf, ht⟩ := hname
    obtain ⟨b, hb⟩ := h.complete hf
    exact ⟨(n, b), hb, ht⟩

theorem lists (h : Reads d entries) : Lists d (RollbackListing.ofEntries entries).sets where
  sorted := sorted_ofEntries
  names hmem := by
    obtain ⟨_, rfl⟩ := mem_ofEntries.1 hmem
    exact h.names
  marked hmem := by
    obtain ⟨_, rfl⟩ := mem_ofEntries.1 hmem
    exact h.begunWithoutSnapshot
  covers hf ht := ⟨_, mem_ofEntries.2 ⟨h.tagged.2 ⟨_, _, hf, ht⟩, rfl⟩⟩
  inhabited hmem := h.tagged.1 (mem_ofEntries.1 hmem).1

end Reads

def RollbackSet.deciding (set : RollbackSet) : RollbackSet := { set with other := [] }

theorem RollbackSet.Names.deciding_eq {t : Nat} {Present : FileName → Prop}
    {set set' : RollbackSet} (h : set.Names t Present) (h' : set'.Names t Present)
    (hmark : set.begunWithoutSnapshot = true ↔ set'.begunWithoutSnapshot = true) :
    set.deciding = set'.deciding := by
  have h₁ : set.manifestAside = set'.manifestAside :=
    Option.ext fun n => (h.manifestAside n).trans (h'.manifestAside n).symm
  have h₂ : set.snapshotAside = set'.snapshotAside :=
    Option.ext fun n => (h.snapshotAside n).trans (h'.snapshotAside n).symm
  have h₃ : set.begun = set'.begun := Option.ext fun n => (h.begun n).trans (h'.begun n).symm
  have h₄ : set.committed = set'.committed :=
    Option.ext fun n => (h.committed n).trans (h'.committed n).symm
  have h₅ : set.begunWithoutSnapshot = set'.begunWithoutSnapshot := Bool.eq_iff_iff.2 hmark
  simp [RollbackSet.deciding, h₁, h₂, h₃, h₄, h₅]

theorem leavesFrom_deciding (sets : List (Nat × RollbackSet)) (m s : Bool) :
    RollbackListing.leavesFrom (sets.map fun e => (e.1, e.2.deciding)) m s =
      RollbackListing.leavesFrom sets m s := by
  induction sets generalizing m s with
  | nil => rfl
  | cons e sets ih =>
    obtain ⟨t, set⟩ := e
    have hfate : set.deciding.fate m = set.fate m := rfl
    rw [List.map_cons, RollbackListing.leavesFrom, RollbackListing.leavesFrom, hfate]
    cases set.fate m with
    | discard => exact ih m s
    | restore restore back => exact ih _ _

theorem Reads.leavesAnIndex_eq {d : GraphDir} {entries entries' : List (FileName × Bool)}
    (h : Reads d entries) (h' : Reads d entries') (m s : Bool) :
    (RollbackListing.ofEntries entries).leavesAnIndex m s =
      (RollbackListing.ofEntries entries').leavesAnIndex m s := by
  have hsub : ∀ {es es'}, Reads d es → Reads d es' → ∀ e,
      e ∈ (RollbackListing.ofEntries es).sets.map (fun e => (e.1, e.2.deciding)) →
      e ∈ (RollbackListing.ofEntries es').sets.map (fun e => (e.1, e.2.deciding)) := by
    intro es es' hes hes' e he
    obtain ⟨⟨t, set⟩, hmem, rfl⟩ := List.mem_map.1 he
    obtain ⟨htag, rfl⟩ := mem_ofEntries.1 hmem
    refine List.mem_map.2 ⟨(t, setOf t es'), mem_ofEntries.2 ⟨?_, rfl⟩, ?_⟩
    · exact hes'.tagged.2 (hes.tagged.1 htag)
    · exact congrArg _ (hes'.names.deciding_eq hes.names 
      (hes'.begunWithoutSnapshot.trans hes.begunWithoutSnapshot.symm))
  have hsorted : ∀ es, OrderedEntries.Sorted
      ((RollbackListing.ofEntries es).sets.map fun e => (e.1, e.2.deciding)) :=
    fun es => List.pairwise_map.2 sorted_ofEntries
  rw [RollbackListing.leavesAnIndex, RollbackListing.leavesAnIndex,
    ← leavesFrom_deciding (RollbackListing.ofEntries entries).sets,
    ← leavesFrom_deciding (RollbackListing.ofEntries entries').sets,
    (hsorted entries).eq_of_mem_iff (hsorted entries')
      fun e => ⟨hsub h h' e, hsub h' h e⟩]

theorem lists_of (d : GraphDir) : Lists d (RollbackListing.of d).sets :=
  (reads_entriesOf d).lists

end Sqry.Rollback
