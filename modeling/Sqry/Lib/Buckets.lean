import Mathlib.Data.List.AList
import Mathlib.Data.List.Perm.Basic

/-!
A map from keys to lists of items, read as one collection of items. Pushing, dropping a
key and filtering are described on the collection, up to the order of iteration.
-/

namespace Buckets

universe u v
variable {κ : Type u} {α : Type v} [DecidableEq κ]

def all (m : AList fun _ : κ => List α) : List α := m.entries.flatMap fun b => b.2

def bucket (m : AList fun _ : κ => List α) (k : κ) : List α := (m.lookup k).getD []

def push (m : AList fun _ : κ => List α) (k : κ) (a : α) : AList fun _ : κ => List α :=
  m.insert k (bucket m k ++ [a])

def mapBucket (f : List α → List α) (b : Sigma fun _ : κ => List α) :
    Sigma fun _ : κ => List α :=
  ⟨b.1, f b.2⟩

omit [DecidableEq κ] in
theorem nodupKeys_rebucket (f : List α → List α) (m : AList fun _ : κ => List α) :
    ((m.entries.map (mapBucket f)).filter fun b => !b.2.isEmpty).NodupKeys := by
  have hkeys : (m.entries.map (mapBucket f)).keys = m.entries.keys := by
    simp only [List.keys, List.map_map]
    rfl
  have hmap : (m.entries.map (mapBucket f)).NodupKeys := by
    rw [List.NodupKeys, hkeys]
    exact m.nodupKeys
  exact List.Nodup.sublist (List.filter_sublist.map Sigma.fst) hmap

def rebucket (f : List α → List α) (m : AList fun _ : κ => List α) : AList fun _ : κ => List α :=
  ⟨(m.entries.map (mapBucket f)).filter fun b => !b.2.isEmpty, nodupKeys_rebucket f m⟩

def retain (keep : α → Bool) (m : AList fun _ : κ => List α) : AList fun _ : κ => List α :=
  rebucket (List.filter keep) m

def mapItems (f : α → α) (m : AList fun _ : κ => List α) : AList fun _ : κ => List α :=
  ⟨m.entries.map (mapBucket (List.map f)), by
    have hkeys : (m.entries.map (mapBucket (List.map f))).keys = m.entries.keys := by
      simp only [List.keys, List.map_map]
      rfl
    rw [List.NodupKeys, hkeys]
    exact m.nodupKeys⟩

def mapBuckets (f : List α → List α) (m : AList fun _ : κ => List α) : AList fun _ : κ => List α :=
  ⟨m.entries.map (mapBucket f), by
    have hkeys : (m.entries.map (mapBucket f)).keys = m.entries.keys := by
      simp only [List.keys, List.map_map]
      rfl
    rw [List.NodupKeys, hkeys]
    exact m.nodupKeys⟩

theorem lookup_mapBuckets (f : List α → List α) (m : AList fun _ : κ => List α) (k : κ) :
    (mapBuckets f m).lookup k = (m.lookup k).map f := by
  have hentries : ∀ entries : List (Sigma fun _ : κ => List α),
      (entries.map (mapBucket f)).dlookup k = (entries.dlookup k).map f := by
    intro entries
    induction entries with
    | nil => rfl
    | cons b entries ih =>
      obtain ⟨key, items⟩ := b
      by_cases hkey : k = key
      · subst hkey
        simp [mapBucket]
      · simp only [List.map_cons, mapBucket]
        rw [List.dlookup_cons_ne _ _ hkey, List.dlookup_cons_ne _ _ hkey]
        exact ih
  exact hentries m.entries

omit [DecidableEq κ] in
@[simp] theorem all_empty : all (∅ : AList fun _ : κ => List α) = [] := rfl

@[simp] theorem bucket_empty (k : κ) : bucket (∅ : AList fun _ : κ => List α) k = [] := rfl

omit [DecidableEq κ] in
theorem all_perm {m m' : AList fun _ : κ => List α} (h : m.entries.Perm m'.entries) :
    (all m).Perm (all m') := h.flatMap_right _

theorem bucket_perm {m m' : AList fun _ : κ => List α} (h : m.entries.Perm m'.entries) (k : κ) :
    bucket m k = bucket m' k := by
  rw [bucket, bucket, AList.perm_lookup h]

theorem all_split (m : AList fun _ : κ => List α) (k : κ) :
    (all m).Perm (bucket m k ++ all (m.erase k)) := by
  have herase : (m.erase k).entries = m.entries.kerase k := rfl
  by_cases hk : k ∈ m
  · obtain ⟨b, l₁, l₂, hnot, hsplit, hrest⟩ := List.exists_of_kerase (AList.mem_keys.mp hk)
    have hlookup : m.lookup k = some b := by
      rw [AList.lookup, hsplit, List.dlookup_append]
      simp [List.dlookup_eq_none.mpr hnot]
    rw [all, all, herase, hrest, hsplit, bucket, hlookup]
    simp only [List.flatMap_append, List.flatMap_cons, Option.getD_some]
    exact List.perm_append_comm_assoc _ _ _
  · have hnone : bucket m k = [] := by
      rw [bucket, AList.lookup_eq_none.mpr hk]
      rfl
    have hsame : m.entries.kerase k = m.entries :=
      List.kerase_of_notMem_keys fun hmem => hk (AList.mem_keys.mpr hmem)
    rw [hnone, all, all, herase, hsame]
    exact List.Perm.refl _

theorem all_push (m : AList fun _ : κ => List α) (k : κ) (a : α) :
    (all (push m k a)).Perm (a :: all m) := by
  have hpush : all (push m k a) = bucket m k ++ [a] ++ all (m.erase k) := rfl
  rw [hpush, List.append_assoc]
  exact List.perm_middle.trans ((all_split m k).symm.cons a)

theorem bucket_push (m : AList fun _ : κ => List α) (k k' : κ) (a : α) :
    bucket (push m k a) k' = if k' = k then bucket m k ++ [a] else bucket m k' := by
  by_cases h : k' = k
  · subst h
    rw [if_pos rfl, bucket, push, AList.lookup_insert]
    rfl
  · rw [if_neg h, bucket, push, AList.lookup_insert_ne h]
    rfl

theorem bucket_erase (m : AList fun _ : κ => List α) (k k' : κ) :
    bucket (m.erase k) k' = if k' = k then [] else bucket m k' := by
  by_cases h : k' = k
  · subst h
    rw [if_pos rfl, bucket, AList.lookup_erase]
    rfl
  · rw [if_neg h, bucket, AList.lookup_erase_ne h]
    rfl

omit [DecidableEq κ] in
theorem all_retain (keep : α → Bool) (m : AList fun _ : κ => List α) :
    all (retain keep m) = (all m).filter keep := by
  simp only [all, retain, rebucket]
  induction m.entries with
  | nil => rfl
  | cons b bs ih =>
    rw [List.map_cons, List.flatMap_cons, List.filter_append, ← ih]
    by_cases hb : b.2.filter keep = []
    · rw [List.filter_cons_of_neg (by simp [mapBucket, hb]), hb]
      rfl
    · rw [List.filter_cons_of_pos (by simpa [mapBucket] using hb)]
      rfl

omit [DecidableEq κ] in
theorem all_mapItems (f : α → α) (m : AList fun _ : κ => List α) :
    all (mapItems f m) = (all m).map f := by
  simp only [all, mapItems, List.flatMap_map, List.map_flatMap]
  rfl

variable {m : AList fun _ : κ => List α}

theorem mem_bucket_iff {k : κ} {a : α} :
    a ∈ bucket m k ↔ ∃ b ∈ m.entries, b.1 = k ∧ a ∈ b.2 := by
  have hlookup : ∀ b ∈ m.entries, b.1 = k → m.lookup k = some b.2 := by
    intro b hb hkey
    rw [← hkey]
    exact AList.mem_lookup_iff.mpr hb
  constructor
  · intro h
    rw [bucket] at h
    cases hitems : m.lookup k with
    | none =>
      rw [hitems] at h
      cases h
    | some items =>
      rw [hitems] at h
      exact ⟨⟨k, items⟩, AList.mem_lookup_iff.mp hitems, rfl, h⟩
  · intro h
    obtain ⟨b, hb, hkey, hmem⟩ := h
    rw [bucket, hlookup b hb hkey]
    exact hmem

theorem mem_all_of_bucket {k : κ} {a : α} (h : a ∈ bucket m k) : a ∈ all m :=
  (all_split m k).symm.subset (List.mem_append_left _ h)

theorem exists_bucket_of_mem_all {a : α} (h : a ∈ all m) :
    ∃ k, a ∈ bucket m k := by
  obtain ⟨b, hb, ha⟩ := List.mem_flatMap.mp h
  refine ⟨b.1, ?_⟩
  rw [bucket, AList.mem_lookup_iff.mpr hb]
  exact ha

theorem bucket_rebucket {f : List α → List α} (hf : f [] = []) (m : AList fun _ : κ => List α)
    (k : κ) : bucket (rebucket f m) k = f (bucket m k) := by
  cases hm : m.lookup k with
  | none =>
    have hnone : (rebucket f m).lookup k = none := by
      rw [AList.lookup_eq_none, AList.mem_keys]
      intro hin
      obtain ⟨b, hb, hk⟩ := List.mem_map.mp hin
      obtain ⟨hmem, -⟩ := List.mem_filter.mp hb
      obtain ⟨c, hc, hcb⟩ := List.mem_map.mp hmem
      have hck : c.1 = k := by rw [← hk, ← hcb]; rfl
      exact absurd (AList.lookup_eq_none.mp hm) fun hnot =>
        hnot (AList.mem_keys.mpr (List.mem_map.mpr ⟨c, hc, hck⟩))
    rw [bucket, hnone, bucket, hm]
    exact hf.symm
  | some b =>
    have hin : (⟨k, b⟩ : Sigma fun _ : κ => List α) ∈ m.entries := AList.mem_lookup_iff.mp hm
    have hbucket : bucket m k = b := by rw [bucket, hm]; rfl
    rw [hbucket]
    by_cases hempty : f b = []
    · cases hr : (rebucket f m).lookup k with
      | none =>
        rw [bucket, hr, hempty]
        rfl
      | some c =>
        have hc := AList.mem_lookup_iff.mp hr
        obtain ⟨hmem, -⟩ := List.mem_filter.mp hc
        obtain ⟨d, hd, heq⟩ := List.mem_map.mp hmem
        obtain ⟨dk, db⟩ := d
        cases heq
        have hsame := AList.mem_lookup_iff.mpr hd
        rw [Option.mem_def, hm] at hsame
        cases hsame
        rw [bucket, hr]
        rfl
    · have hkept : (⟨k, f b⟩ : Sigma fun _ : κ => List α) ∈ (rebucket f m).entries :=
        List.mem_filter.mpr ⟨List.mem_map.mpr ⟨_, hin, rfl⟩, by simpa using hempty⟩
      rw [bucket, AList.mem_lookup_iff.mpr hkept]
      rfl

theorem bucket_retain (keep : α → Bool) (m : AList fun _ : κ => List α) (k : κ) :
    bucket (retain keep m) k = (bucket m k).filter keep :=
  bucket_rebucket List.filter_nil m k

theorem ne_nil_of_lookup_rebucket {f : List α → List α} {k : κ} {b : List α}
    (h : (rebucket f m).lookup k = some b) : b ≠ [] := by
  have hb := (List.mem_filter.mp (AList.mem_lookup_iff.mp h)).2
  simpa using hb

section Keyed

variable {key : α → κ}

theorem filter_all_perm_bucket {m : AList fun _ : κ => List α}
    (hkey : ∀ k, ∀ a ∈ bucket m k, key a = k) (k : κ) :
    ((all m).filter fun a => key a = k).Perm (bucket m k) := by
  have hin : ((bucket m k).filter fun a => decide (key a = k)) = bucket m k := by
    rw [List.filter_eq_self]
    intro a ha
    exact decide_eq_true (hkey k a ha)
  have hout : ((all (m.erase k)).filter fun a => decide (key a = k)) = [] := by
    rw [List.filter_eq_nil_iff]
    intro a ha heq
    obtain ⟨k', hk'⟩ := exists_bucket_of_mem_all ha
    rw [bucket_erase] at hk'
    split at hk'
    · cases hk'
    · rename_i hne
      exact hne ((hkey k' a hk').symm.trans (of_decide_eq_true heq))
  have hsplit := (all_split m k).filter fun a => decide (key a = k)
  rw [List.filter_append, hin, hout, List.append_nil] at hsplit
  exact hsplit

theorem filter_all_eq_bucket {m : AList fun _ : κ => List α}
    (hkey : ∀ k, ∀ a ∈ bucket m k, key a = k) (k : κ) :
    ((all m).filter fun a => key a = k) = bucket m k := by
  have hin : ∀ b ∈ m.entries, (b.2.filter fun a => decide (key a = k)) =
      if b.1 = k then b.2 else [] := by
    intro b hb
    have hall : ∀ a ∈ b.2, key a = b.1 := fun a ha =>
      hkey b.1 a (mem_bucket_iff.mpr ⟨b, hb, rfl, ha⟩)
    split
    · rename_i hk
      rw [List.filter_eq_self]
      exact fun a ha => decide_eq_true ((hall a ha).trans hk)
    · rename_i hk
      rw [List.filter_eq_nil_iff]
      exact fun a ha heq => hk ((hall a ha).symm.trans (of_decide_eq_true heq))
  rw [all, List.filter_flatMap, bucket, AList.lookup]
  have hnodup := m.nodupKeys
  generalize m.entries = entries at hin hnodup
  induction entries with
  | nil => rfl
  | cons b entries ih =>
    obtain ⟨hb, hrest⟩ := List.nodupKeys_cons.mp hnodup
    rw [List.flatMap_cons, hin b List.mem_cons_self,
      ih (fun b' hb' => hin b' (List.mem_cons_of_mem _ hb')) hrest]
    by_cases hk : b.1 = k
    · subst hk
      rw [if_pos rfl, List.dlookup_cons_eq, List.dlookup_eq_none.mpr hb]
      exact List.append_nil _
    · rw [if_neg hk, List.nil_append, List.dlookup_cons_ne _ _ fun h => hk h.symm]

theorem length_bucket {m : AList fun _ : κ => List α}
    (hkey : ∀ k, ∀ a ∈ bucket m k, key a = k) (k : κ) :
    (bucket m k).length = (all m).countP fun a => key a = k := by
  rw [List.countP_eq_length_filter, (filter_all_perm_bucket hkey k).length_eq]

theorem count_all [DecidableEq α] {m : AList fun _ : κ => List α}
    (hkey : ∀ k, ∀ a ∈ bucket m k, key a = k) (a : α) :
    (all m).count a = (bucket m (key a)).count a := by
  rw [← (filter_all_perm_bucket hkey (key a)).count_eq a, List.count_filter]
  exact decide_eq_true rfl

variable {m m' : AList fun _ : κ => List α} (hm : ∀ k, ∀ a ∈ bucket m k, key a = k)
  (hm' : ∀ k, ∀ a ∈ bucket m' k, key a = k)

include hm hm'

theorem all_subperm_all [DecidableEq α] (hsub : ∀ k, (bucket m k).Sublist (bucket m' k)) :
    (all m).Subperm (all m') := by
  rw [List.subperm_ext_iff]
  intro a _
  rw [count_all hm, count_all hm']
  exact (hsub (key a)).count_le a

theorem bucket_eq_of_sublist [DecidableEq α]
    (hsub : ∀ k, (bucket m k).Sublist (bucket m' k)) (hlen : (all m').length ≤ (all m).length)
    (k : κ) : bucket m k = bucket m' k := by
  apply (hsub k).eq_of_length
  have hperm := (all_subperm_all hm hm' hsub).perm_of_length_le hlen
  rw [length_bucket hm, length_bucket hm', hperm.countP_eq]

theorem all_perm_of_bucket_eq [DecidableEq α] (h : ∀ k, bucket m k = bucket m' k) :
    (all m).Perm (all m') := by
  rw [List.perm_iff_count]
  intro a
  rw [count_all hm, count_all hm', h]

end Keyed

section Gather

def gather (l : List (κ × α)) : AList fun _ : κ => List α :=
  l.foldl (fun m p => push m p.1 p.2) ∅

theorem bucket_foldl_push (l : List (κ × α)) (m : AList fun _ : κ => List α) (k : κ) :
    bucket (l.foldl (fun m p => push m p.1 p.2) m) k =
      bucket m k ++ (l.filter fun p => decide (p.1 = k)).map Prod.snd := by
  induction l generalizing m with
  | nil => exact (List.append_nil _).symm
  | cons p l ih =>
    rw [List.foldl_cons, ih, bucket_push]
    by_cases hk : p.1 = k
    · rw [if_pos hk.symm, List.filter_cons_of_pos (by simpa using hk), hk, List.append_assoc]
      rfl
    · rw [if_neg fun h => hk h.symm, List.filter_cons_of_neg (by simpa using hk)]

theorem bucket_gather (l : List (κ × α)) (k : κ) :
    bucket (gather l) k = (l.filter fun p => decide (p.1 = k)).map Prod.snd :=
  bucket_foldl_push l ∅ k

theorem mem_foldl_push (l : List (κ × α)) (m : AList fun _ : κ => List α) (k : κ) :
    k ∈ l.foldl (fun m p => push m p.1 p.2) m ↔ k ∈ m ∨ k ∈ l.map Prod.fst := by
  induction l generalizing m with
  | nil => simp
  | cons p l ih =>
    rw [List.foldl_cons, ih, push, AList.mem_insert, List.map_cons, List.mem_cons, or_assoc,
      or_left_comm]

variable {l : List (κ × α)}

theorem mem_keys_gather {k : κ} : k ∈ (gather l).keys ↔ k ∈ l.map Prod.fst := by
  rw [AList.mem_keys.symm, gather, mem_foldl_push]
  simp

theorem snd_of_mem_gather {b : Sigma fun _ : κ => List α} (h : b ∈ (gather l).entries)
    : b.2 = bucket (gather l) b.1 := by
  rw [bucket, AList.mem_lookup_iff.mpr h]
  rfl

theorem length_gather_le (l : List (κ × α)) : (gather l).entries.length ≤ l.length := by
  have hsub : (gather l).keys.Subperm (l.map Prod.fst) :=
    List.subperm_of_subset (gather l).keys_nodup fun k hk => mem_keys_gather.mp hk
  have hle := hsub.length_le
  rwa [List.length_map, AList.keys, List.keys, List.length_map] at hle

theorem mem_of_mem_gather {b : Sigma fun _ : κ => List α} (h : b ∈ (gather l).entries) :
    b.2.Sublist (l.map Prod.snd) ∧ ∀ x ∈ b.2, (b.1, x) ∈ l := by
  rw [snd_of_mem_gather h, bucket_gather]
  refine ⟨List.filter_sublist.map Prod.snd, fun x hx => ?_⟩
  obtain ⟨p, hp, heq⟩ := List.mem_map.mp hx
  obtain ⟨hin, hkey⟩ := List.mem_filter.mp hp
  rw [← of_decide_eq_true hkey, ← heq]
  exact hin

end Gather

omit [DecidableEq κ] in
theorem sublist_filterMap_snd {β : Type*} {f : α → Option (κ × β)} {first : α → β} {l : List α}
    (h : ∀ a ∈ l, ∀ p, f a = some p → p.2 = first a) :
    ((l.filterMap f).map Prod.snd).Sublist (l.map first) := by
  induction l with
  | nil => exact List.Sublist.refl _
  | cons a l ih =>
    have hrest := ih fun b hb => h b (List.mem_cons_of_mem a hb)
    cases hf : f a with
    | none =>
      rw [List.filterMap_cons_none hf]
      exact hrest.cons (first a)
    | some p =>
      rw [List.filterMap_cons_some hf, List.map_cons, List.map_cons,
        h a List.mem_cons_self p hf]
      exact hrest.cons_cons (first a)

end Buckets
