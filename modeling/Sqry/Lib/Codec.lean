import Mathlib.Data.List.Infix
import Mathlib.Data.Vector.Basic
import Mathlib.Logic.Nontrivial.Basic

/-!
Self-delimiting encodings. A codec writes a value as a string of symbols, and reads one
value from the head of a string without looking past it. Values written one after another
are then read back one by one, and a proper prefix of one encoded value is never read.
-/

namespace Sqry

structure Codec (β ε α : Type) where
  encode : α → List β
  take : List β → Except ε (α × List β)
  take_encode : ∀ a, take (encode a) = .ok (a, [])
  take_append : ∀ {bs a rest} (more : List β),
    take bs = .ok (a, rest) → take (bs ++ more) = .ok (a, rest ++ more)
  exists_used : ∀ {bs a rest},
    take bs = .ok (a, rest) → ∃ used, bs = used ++ rest ∧ take used = .ok (a, [])

namespace Codec

variable {β ε α : Type}

section Stream

variable (c : Codec β ε α)

theorem take_encode_append (a : α) (more : List β) :
    c.take (c.encode a ++ more) = .ok (a, more) :=
  c.take_append more (c.take_encode a)

def fromBytes (bs : List β) : Except ε α :=
  match c.take bs with
  | .error e => .error e
  | .ok (a, _) => .ok a

theorem fromBytes_encode (a : α) : c.fromBytes (c.encode a) = .ok a := by
  rw [fromBytes, c.take_encode]

theorem encode_injective : Function.Injective c.encode := by
  intro a b h
  have hread : Except.ok (a, []) = (Except.ok (b, []) : Except ε (α × List β)) := by
    rw [← c.take_encode a, ← c.take_encode b, h]
  injection hread with hpair
  exact congrArg Prod.fst hpair

theorem eq_of_take_prefix {p q : List β} {a b : α} {rest : List β}
    (hsplit : c.encode a = p ++ q) (htake : c.take p = .ok (b, rest)) : q = [] := by
  have hread := c.take_append q htake
  rw [← hsplit, c.take_encode a] at hread
  injection hread with hpair
  exact (List.append_eq_nil_iff.mp (congrArg Prod.snd hpair).symm).2

theorem take_prefix {p q : List β} {a : α} (hsplit : c.encode a = p ++ q) (hq : q ≠ []) :
    ∃ e, c.take p = .error e := by
  cases htake : c.take p with
  | error e => exact ⟨e, rfl⟩
  | ok r => exact absurd (c.eq_of_take_prefix hsplit htake) hq

end Stream

section Nontrivial

variable [Nontrivial α] (c : Codec β ε α)

theorem take_nil : ∃ e, c.take [] = .error e := by
  cases htake : c.take [] with
  | error e => exact ⟨e, rfl⟩
  | ok r =>
    obtain ⟨a, b, hne⟩ := exists_pair_ne α
    have hsame : ∀ x, x = r.1 := by
      intro x
      have hread := c.take_append (c.encode x) htake
      rw [List.nil_append, c.take_encode x] at hread
      injection hread with hpair
      exact congrArg Prod.fst hpair
    exact absurd ((hsame a).trans (hsame b).symm) hne

theorem encode_ne_nil (a : α) : c.encode a ≠ [] := by
  intro h
  obtain ⟨e, he⟩ := c.take_nil
  have hread := c.take_encode a
  rw [h, he] at hread
  cases hread

theorem length_of_take {bs rest : List β} {a : α} (h : c.take bs = .ok (a, rest)) :
    rest.length < bs.length := by
  obtain ⟨used, rfl, hused⟩ := c.exists_used h
  have hne : used ≠ [] := by
    intro hnil
    obtain ⟨e, he⟩ := c.take_nil
    rw [hnil, he] at hused
    cases hused
  rw [List.length_append]
  exact Nat.lt_add_of_pos_left (List.length_pos_iff.mpr hne)

end Nontrivial

def takeAll [Nontrivial α] (c : Codec β ε α) (bs : List β) : Except ε (List α) :=
  if bs.isEmpty then .ok []
  else
    match _hread : c.take bs with
    | .error e => .error e
    | .ok (a, rest) => (takeAll c rest).map (a :: ·)
termination_by bs.length
decreasing_by exact c.length_of_take _hread

def encodeAll (c : Codec β ε α) : List α → List β
  | [] => []
  | a :: as => c.encode a ++ encodeAll c as

section Runs

variable [Nontrivial α] (c : Codec β ε α)

@[simp] theorem takeAll_nil : c.takeAll [] = .ok [] := by
  rw [takeAll]
  rfl

theorem takeAll_of_error {bs : List β} {e : ε} (hbs : bs ≠ [])
    (h : c.take bs = .error e) : c.takeAll bs = .error e := by
  rw [takeAll, if_neg (by rwa [List.isEmpty_iff])]
  split
  · rename_i e' he
    rw [h] at he
    exact congrArg Except.error (Except.error.inj he).symm
  · rename_i a rest hok
    rw [h] at hok
    cases hok

theorem takeAll_of_ok {bs rest : List β} {a : α} (h : c.take bs = .ok (a, rest)) :
    c.takeAll bs = (c.takeAll rest).map (a :: ·) := by
  have hbs : bs ≠ [] := by
    intro hnil
    have hlt := c.length_of_take h
    rw [hnil] at hlt
    exact absurd hlt (Nat.not_lt_zero _)
  rw [takeAll, if_neg (by rwa [List.isEmpty_iff])]
  split
  · rename_i e he
    rw [h] at he
    cases he
  · rename_i a' rest' hok
    rw [h] at hok
    obtain ⟨rfl, rfl⟩ := Prod.mk.inj (Except.ok.inj hok)
    rfl

omit [Nontrivial α] in
theorem encodeAll_append (as bs : List α) :
    c.encodeAll (as ++ bs) = c.encodeAll as ++ c.encodeAll bs := by
  induction as with
  | nil => rfl
  | cons a as ih => rw [List.cons_append, encodeAll, ih, encodeAll, List.append_assoc]

theorem takeAll_encodeAll_append (as : List α) (more : List β) :
    c.takeAll (c.encodeAll as ++ more) = (c.takeAll more).map (as ++ ·) := by
  induction as with
  | nil =>
    rw [encodeAll, List.nil_append]
    cases c.takeAll more <;> rfl
  | cons a as ih =>
    rw [encodeAll, List.append_assoc, c.takeAll_of_ok (c.take_encode_append a _), ih]
    cases c.takeAll more <;> rfl

theorem takeAll_encodeAll (as : List α) : c.takeAll (c.encodeAll as) = .ok as := by
  have h := c.takeAll_encodeAll_append as []
  rw [List.append_nil, takeAll_nil] at h
  rw [h]
  exact congrArg Except.ok (List.append_nil as)

omit [Nontrivial α] in
theorem encodeAll_cut {as : List α} {p q : List β} (h : c.encodeAll as = p ++ q)
    (hq : q ≠ []) :
    ∃ k, ∃ hk : k < as.length, ∃ u v, c.encode (as.get ⟨k, hk⟩) = u ++ v ∧ v ≠ [] ∧
      p = c.encodeAll (as.take k) ++ u := by
  induction as generalizing p with
  | nil => exact absurd (List.append_eq_nil_iff.mp h.symm).2 hq
  | cons a as ih =>
    rw [encodeAll] at h
    rcases List.append_eq_append_iff.mp h with ⟨p', hp, hrest⟩ | ⟨v, ha, hrest⟩
    · obtain ⟨k, hk, u, v, hval, hv, rfl⟩ := ih hrest
      refine ⟨k + 1, Nat.succ_lt_succ hk, u, v, hval, hv, ?_⟩
      rw [hp, List.take_succ_cons, encodeAll, List.append_assoc]
    · by_cases hv : v = []
      · rw [hv, List.append_nil] at ha
        rw [hv, List.nil_append] at hrest
        obtain ⟨k, hk, u, w, hval, hw, hnil⟩ := ih (p := []) (by rw [List.nil_append, hrest])
        refine ⟨k + 1, Nat.succ_lt_succ hk, u, w, hval, hw, ?_⟩
        rw [List.take_succ_cons, encodeAll, List.append_assoc, ← hnil, List.append_nil, ha]
      · exact ⟨0, Nat.zero_lt_succ _, p, v, ha, hv, rfl⟩

/-- A proper prefix of a stream is read to its end exactly when the cut falls between two
values. -/
theorem takeAll_cut {as : List α} {p q : List β} (h : c.encodeAll as = p ++ q)
    (hq : q ≠ []) :
    (∃ k, k < as.length ∧ p = c.encodeAll (as.take k) ∧ c.takeAll p = .ok (as.take k)) ∨
      ((∃ e, c.takeAll p = .error e) ∧ ∀ k, p ≠ c.encodeAll (as.take k)) := by
  obtain ⟨k, hk, u, v, hval, hv, rfl⟩ := c.encodeAll_cut h hq
  by_cases hu : u = []
  · refine Or.inl ⟨k, hk, ?_, ?_⟩
    · rw [hu, List.append_nil]
    · rw [hu, List.append_nil, c.takeAll_encodeAll]
  · obtain ⟨e, he⟩ := c.take_prefix hval hv
    have hfail : c.takeAll (c.encodeAll (as.take k) ++ u) = .error e := by
      rw [c.takeAll_encodeAll_append, c.takeAll_of_error hu he]
      rfl
    refine Or.inr ⟨⟨e, hfail⟩, ?_⟩
    intro j hj
    rw [hj, c.takeAll_encodeAll] at hfail
    cases hfail

end Runs

section Combinators

def unit : Codec β ε Unit where
  encode := fun _ => []
  take := fun bs => .ok ((), bs)
  take_encode := fun _ => rfl
  take_append := by
    intro bs a rest more h
    rw [← (Prod.mk.inj (Except.ok.inj h)).2]
  exists_used := fun h => ⟨[], (Prod.mk.inj (Except.ok.inj h)).2, rfl⟩

/-- One symbol that stands for itself; `eof` is the error at the end of the input. -/
def symbol (eof : ε) : Codec β ε β where
  encode := fun b => [b]
  take := fun bs =>
    match bs with
    | [] => .error eof
    | b :: rest => .ok (b, rest)
  take_encode := fun _ => rfl
  take_append := by
    intro bs a rest more h
    cases bs with
    | nil => cases h
    | cons b bs =>
      cases h
      rfl
  exists_used := by
    intro bs a rest h
    cases bs with
    | nil => cases h
    | cons b bs =>
      cases h
      exact ⟨[a], rfl, rfl⟩

def map {γ : Type} (c : Codec β ε α) (f : α ≃ γ) : Codec β ε γ where
  encode := fun b => c.encode (f.symm b)
  take := fun bs =>
    match c.take bs with
    | .error e => .error e
    | .ok (a, rest) => .ok (f a, rest)
  take_encode := by
    intro b
    rw [c.take_encode]
    exact congrArg (fun x => Except.ok (x, [])) (f.apply_symm_apply b)
  take_append := by
    intro bs b rest more h
    cases hread : c.take bs with
    | error e => simp [hread] at h
    | ok r =>
      simp only [hread, Except.ok.injEq, Prod.mk.injEq] at h
      rw [c.take_append more hread, ← h.1, ← h.2]
  exists_used := by
    intro bs b rest h
    cases hread : c.take bs with
    | error e => simp [hread] at h
    | ok r =>
      simp only [hread, Except.ok.injEq, Prod.mk.injEq] at h
      obtain ⟨used, hbs, hused⟩ := c.exists_used hread
      refine ⟨used, by rw [hbs, h.2], ?_⟩
      simp only [hused, h.1]

def checked {γ : Type} (c : Codec β ε α) (f : α → Except ε γ) (g : γ → α)
    (hfg : ∀ b, f (g b) = .ok b) : Codec β ε γ where
  encode := fun b => c.encode (g b)
  take := fun bs =>
    match c.take bs with
    | .error e => .error e
    | .ok (a, rest) =>
      match f a with
      | .error e => .error e
      | .ok b => .ok (b, rest)
  take_encode := by
    intro b
    simp only [c.take_encode, hfg]
  take_append := by
    intro bs b rest more h
    cases hread : c.take bs with
    | error e => simp [hread] at h
    | ok r =>
      cases hpass : f r.1 with
      | error e => simp [hread, hpass] at h
      | ok b' =>
        simp only [hread, hpass, Except.ok.injEq, Prod.mk.injEq] at h
        simp only [c.take_append more hread, hpass, h.1, h.2]
  exists_used := by
    intro bs b rest h
    cases hread : c.take bs with
    | error e => simp [hread] at h
    | ok r =>
      cases hpass : f r.1 with
      | error e => simp [hread, hpass] at h
      | ok b' =>
        simp only [hread, hpass, Except.ok.injEq, Prod.mk.injEq] at h
        obtain ⟨used, hbs, hused⟩ := c.exists_used hread
        refine ⟨used, by rw [hbs, h.2], ?_⟩
        simp only [hused, hpass, h.1]

def retract {γ : Type} (c : Codec β ε α) (f : α → γ) (g : γ → α) (hfg : ∀ b, f (g b) = b) :
    Codec β ε γ :=
  c.checked (fun a => .ok (f a)) g fun b => congrArg Except.ok (hfg b)

/-- A position in a table of all values; `unknown` says what a position past its end is. -/
def enumeration [DecidableEq α] (position : Codec β ε Nat) (table : List α)
    (hall : ∀ a, a ∈ table) (unknown : Nat → Except ε α) : Codec β ε α :=
  position.checked
    (fun i =>
      match table[i]? with
      | some a => .ok a
      | none => unknown i)
    (fun a => table.idxOf a)
    (by
      intro a
      have hget : table[table.idxOf a]? = some a := by
        rw [List.getElem?_eq_getElem (List.idxOf_lt_length_iff.mpr (hall a)),
          List.getElem_idxOf]
      simp only [hget])

def sigma {γ : α → Type} (c : Codec β ε α) (d : ∀ a, Codec β ε (γ a)) :
    Codec β ε (Σ a, γ a) where
  encode := fun p => c.encode p.1 ++ (d p.1).encode p.2
  take := fun bs =>
    match c.take bs with
    | .error e => .error e
    | .ok (a, rest) =>
      match (d a).take rest with
      | .error e => .error e
      | .ok (b, rest) => .ok (⟨a, b⟩, rest)
  take_encode := by
    intro p
    simp only [c.take_encode_append, (d p.1).take_encode]
  take_append := by
    intro bs p rest more h
    cases hread : c.take bs with
    | error e => simp [hread] at h
    | ok r =>
      cases hnext : (d r.1).take r.2 with
      | error e => simp [hread, hnext] at h
      | ok r' =>
        simp only [hread, hnext, Except.ok.injEq, Prod.mk.injEq] at h
        simp only [c.take_append more hread, (d r.1).take_append more hnext, h.1, h.2]
  exists_used := by
    intro bs p rest h
    cases hread : c.take bs with
    | error e => simp [hread] at h
    | ok r =>
      cases hnext : (d r.1).take r.2 with
      | error e => simp [hread, hnext] at h
      | ok r' =>
        simp only [hread, hnext, Except.ok.injEq, Prod.mk.injEq] at h
        obtain ⟨u, hu, hread'⟩ := c.exists_used hread
        obtain ⟨v, hv, hnext'⟩ := (d r.1).exists_used hnext
        refine ⟨u ++ v, ?_, ?_⟩
        · rw [hu, hv, h.2, List.append_assoc]
        · have happend := c.take_append v hread'
          rw [List.nil_append] at happend
          simp only [happend, hnext', h.1]

def prod {γ : Type} (c : Codec β ε α) (d : Codec β ε γ) : Codec β ε (α × γ) :=
  (c.sigma fun _ => d).map (Equiv.sigmaEquivProd α γ)

def replicate (c : Codec β ε α) : (n : Nat) → Codec β ε (List.Vector α n)
  | 0 => unit.map
      { toFun := fun _ => List.Vector.nil
        invFun := fun _ => ()
        left_inv := fun _ => rfl
        right_inv := fun v => v.eq_nil.symm }
  | n + 1 => (c.prod (replicate c n)).map
      { toFun := fun p => p.1 ::ᵥ p.2
        invFun := fun v => (v.head, v.tail)
        left_inv := fun _ => rfl
        right_inv := fun v => v.cons_head_tail }

def list (len : Codec β ε Nat) (c : Codec β ε α) : Codec β ε (List α) :=
  (len.sigma c.replicate).map (Equiv.sigmaFiberEquiv List.length)

def takeMany (c : Codec β ε α) : Nat → List β → Except ε (List α × List β)
  | 0, bs => .ok ([], bs)
  | n + 1, bs =>
    match c.take bs with
    | .error e => .error e
    | .ok (a, rest) =>
      match takeMany c n rest with
      | .error e => .error e
      | .ok (as, rest) => .ok (a :: as, rest)

def option (tag : Codec β ε Bool) (c : Codec β ε α) : Codec β ε (Option α) :=
  (tag.sigma fun
    | false => unit
    | true => c).map
    ((Equiv.sumEquivSigmaBool PUnit α).symm.trans
      ((Equiv.sumComm PUnit α).trans (Equiv.optionEquivSumPUnit α).symm))

section Reading

variable {γ : Type} {c : Codec β ε α} {d : Codec β ε γ} {bs mid rest : List β}

theorem take_of_map {f : α ≃ γ} {b : γ} (h : (c.map f).take bs = .ok (b, rest)) :
    c.take bs = .ok (f.symm b, rest) := by
  cases hread : c.take bs with
  | error e => simp [map, hread] at h
  | ok r =>
    simp only [map, hread, Except.ok.injEq, Prod.mk.injEq] at h
    rw [← h.1, ← h.2, f.symm_apply_apply]

theorem take_of_sigma {δ : α → Type} {d : ∀ a, Codec β ε (δ a)} {p : Σ a, δ a}
    (h : (c.sigma d).take bs = .ok (p, rest)) :
    ∃ mid, c.take bs = .ok (p.1, mid) ∧ (d p.1).take mid = .ok (p.2, rest) := by
  cases hread : c.take bs with
  | error e => simp [sigma, hread] at h
  | ok r =>
    cases hnext : (d r.1).take r.2 with
    | error e => simp [sigma, hread, hnext] at h
    | ok r' =>
      simp only [sigma, hread, hnext, Except.ok.injEq, Prod.mk.injEq] at h
      obtain ⟨rfl, rfl⟩ := h
      exact ⟨r.2, rfl, hnext⟩

theorem take_of_prod {p : α × γ} (h : (c.prod d).take bs = .ok (p, rest)) :
    ∃ mid, c.take bs = .ok (p.1, mid) ∧ d.take mid = .ok (p.2, rest) :=
  take_of_sigma (take_of_map h)

theorem map_take_replicate (n : Nat) (bs : List β) :
    ((c.replicate n).take bs).map (fun r => (r.1.toList, r.2)) = c.takeMany n bs := by
  induction n generalizing bs with
  | zero => rfl
  | succ n ih =>
    rw [takeMany, replicate]
    cases hread : c.take bs with
    | error e => simp [map, prod, sigma, hread, Except.map]
    | ok r =>
      obtain ⟨a, rest⟩ := r
      simp only [← ih rest]
      cases hrest : (c.replicate n).take rest with
      | error e => simp [map, prod, sigma, hread, hrest, Except.map]
      | ok r' =>
        simp only [map, prod, sigma, hread, hrest, Except.map]
        exact congrArg (fun as => Except.ok (as, r'.2)) (List.Vector.toList_cons a r'.1)

theorem take_list (len : Codec β ε Nat) (bs : List β) :
    (list len c).take bs =
      match len.take bs with
      | .error e => .error e
      | .ok (n, rest) => c.takeMany n rest := by
  cases hlen : len.take bs with
  | error e => simp [list, map, sigma, hlen]
  | ok r =>
    simp only [← map_take_replicate]
    cases hread : (c.replicate r.1).take r.2 with
    | error e => simp [list, map, sigma, hlen, hread, Except.map]
    | ok r' =>
      simp only [list, map, sigma, hlen, hread, Except.map]
      rfl

theorem encode_replicate {n : Nat} (v : List.Vector α n) :
    (c.replicate n).encode v = c.encodeAll v.toList := by
  induction n with
  | zero =>
    rw [v.eq_nil]
    rfl
  | succ n ih =>
    rw [← v.cons_head_tail, List.Vector.toList_cons, encodeAll, ← ih]
    rfl

theorem encode_list (len : Codec β ε Nat) (as : List α) :
    (list len c).encode as = len.encode as.length ++ c.encodeAll as := by
  have hall := encode_replicate (c := c) ⟨as, rfl⟩
  exact congrArg (len.encode as.length ++ ·) hall

theorem encodeAll_map {f : γ → α} {ds : List γ} (h : ∀ x ∈ ds, c.encode (f x) = d.encode x) :
    c.encodeAll (ds.map f) = d.encodeAll ds := by
  induction ds with
  | nil => rfl
  | cons x ds ih =>
    rw [List.map_cons, encodeAll, encodeAll, h x List.mem_cons_self,
      ih fun y hy => h y (List.mem_cons_of_mem _ hy)]

theorem encode_list_map (len : Codec β ε Nat) {f : γ → α} {ds : List γ}
    (h : ∀ x ∈ ds, c.encode (f x) = d.encode x) :
    (list len c).encode (ds.map f) = (list len d).encode ds := by
  rw [encode_list, encode_list, List.length_map, encodeAll_map h]

structure LeadsWith (c : Codec β ε γ) (first : Codec β ε α) (part : γ → α) : Prop where
  encode : ∀ x, ∃ more, c.encode x = first.encode (part x) ++ more
  take : ∀ {bs x rest}, c.take bs = .ok (x, rest) → ∃ mid, first.take bs = .ok (part x, mid)

theorem leadsWith_prod {δ : Type} (first : Codec β ε α) (next : Codec β ε δ) (f : α × δ ≃ γ) :
    ((first.prod next).map f).LeadsWith first fun x => (f.symm x).1 where
  encode x := ⟨next.encode (f.symm x).2, rfl⟩
  take h := by
    obtain ⟨mid, hread, -⟩ := take_of_prod (take_of_map h)
    exact ⟨mid, hread⟩

theorem LeadsWith.trans {δ : Type} {c : Codec β ε δ} {mid : Codec β ε γ} {first : Codec β ε α}
    {part : δ → γ} {part' : γ → α} (h : c.LeadsWith mid part) (h' : mid.LeadsWith first part') :
    c.LeadsWith first (part' ∘ part) where
  encode x := by
    obtain ⟨more, hmore⟩ := h.encode x
    obtain ⟨more', hmore'⟩ := h'.encode (part x)
    exact ⟨more' ++ more, by rw [hmore, hmore', List.append_assoc]; rfl⟩
  take hread := by
    obtain ⟨_, hmid⟩ := h.take hread
    exact h'.take hmid

end Reading

end Combinators

section Octets

def tag (eof bad : ε) : Codec UInt8 ε Bool where
  encode := fun b => [if b then 1 else 0]
  take := fun bs =>
    match bs with
    | [] => .error eof
    | b :: rest =>
      if b = 0 then .ok (false, rest) else if b = 1 then .ok (true, rest) else .error bad
  take_encode := by
    intro b
    cases b <;> rfl
  take_append := by
    intro bs a rest more h
    cases bs with
    | nil => cases h
    | cons b bs =>
      by_cases hzero : b = 0
      · rw [hzero] at h ⊢
        cases h
        rfl
      · by_cases hone : b = 1
        · rw [hone] at h ⊢
          cases h
          rfl
        · simp only [if_neg hzero, if_neg hone] at h
          cases h
  exists_used := by
    intro bs a rest h
    cases bs with
    | nil => cases h
    | cons b bs =>
      refine ⟨[b], ?_⟩
      by_cases hzero : b = 0
      · rw [hzero] at h ⊢
        cases h
        exact ⟨rfl, rfl⟩
      · by_cases hone : b = 1
        · rw [hone] at h ⊢
          cases h
          exact ⟨rfl, rfl⟩
        · simp only [if_neg hzero, if_neg hone] at h
          cases h

def encodeVarint (n : Nat) : List UInt8 :=
  if n < 128 then [n.toUInt8] else (n % 128 + 128).toUInt8 :: encodeVarint (n / 128)

def takeVarint (eof : ε) : List UInt8 → Except ε (Nat × List UInt8)
  | [] => .error eof
  | b :: bs =>
    if b.toNat < 128 then .ok (b.toNat, bs)
    else
      match takeVarint eof bs with
      | .error e => .error e
      | .ok (n, rest) => .ok (b.toNat - 128 + 128 * n, rest)

theorem takeVarint_encodeVarint (eof : ε) (n : Nat) :
    takeVarint eof (encodeVarint n) = .ok (n, []) := by
  induction n using Nat.strongRecOn with
  | ind n ih =>
    rw [encodeVarint]
    split
    · rename_i hsmall
      have hbyte : n.toUInt8.toNat = n := by
        rw [Nat.toUInt8, UInt8.toNat_ofNat']
        omega
      rw [takeVarint, hbyte, if_pos hsmall]
    · rename_i hlarge
      have hbyte : (n % 128 + 128).toUInt8.toNat = n % 128 + 128 := by
        rw [Nat.toUInt8, UInt8.toNat_ofNat']
        omega
      rw [takeVarint, hbyte, if_neg (by omega), ih (n / 128) (by omega)]
      have hvalue : n % 128 + 128 - 128 + 128 * (n / 128) = n := by omega
      simp only [hvalue]

variable {bs rest : List UInt8}

theorem takeVarint_append (eof : ε) {n : Nat} (more : List UInt8)
    (h : takeVarint eof bs = .ok (n, rest)) :
    takeVarint eof (bs ++ more) = .ok (n, rest ++ more) := by
  induction bs generalizing n with
  | nil => cases h
  | cons b bs ih =>
    rw [takeVarint] at h
    rw [List.cons_append, takeVarint]
    split at h
    · rename_i hsmall
      rw [if_pos hsmall]
      cases h
      rfl
    · rename_i hlarge
      rw [if_neg hlarge]
      cases hread : takeVarint eof bs with
      | error e => simp [hread] at h
      | ok r =>
        simp only [hread, Except.ok.injEq, Prod.mk.injEq] at h
        rw [ih (n := r.1) (by rw [hread, ← h.2]), ← h.1]

theorem exists_used_varint (eof : ε) {n : Nat} (h : takeVarint eof bs = .ok (n, rest)) :
    ∃ used, bs = used ++ rest ∧ takeVarint eof used = .ok (n, []) := by
  induction bs generalizing n with
  | nil => cases h
  | cons b bs ih =>
    rw [takeVarint] at h
    split at h
    · rename_i hsmall
      cases h
      exact ⟨[b], rfl, by rw [takeVarint, if_pos hsmall]⟩
    · rename_i hlarge
      cases hread : takeVarint eof bs with
      | error e => simp [hread] at h
      | ok r =>
        simp only [hread, Except.ok.injEq, Prod.mk.injEq] at h
        obtain ⟨used, hused, htake⟩ := ih (n := r.1) (by rw [hread, ← h.2])
        refine ⟨b :: used, by rw [hused, List.cons_append], ?_⟩
        rw [takeVarint, if_neg hlarge, htake, ← h.1]

def varint (eof : ε) : Codec UInt8 ε Nat where
  encode := encodeVarint
  take := takeVarint eof
  take_encode := takeVarint_encodeVarint eof
  take_append := takeVarint_append eof
  exists_used := exists_used_varint eof

theorem eq_cons_of_take_tag {eof bad : ε} (h : (tag eof bad).take bs = .ok (false, rest))
    : bs = 0 :: rest := by
  cases bs with
  | nil => cases h
  | cons b bs =>
    by_cases hzero : b = 0
    · rw [hzero] at h ⊢
      cases h
      rfl
    · by_cases hone : b = 1
      · rw [hone] at h
        cases h
      · simp only [tag, if_neg hzero, if_neg hone] at h
        cases h

theorem eq_cons_of_take_none {α : Type} {eof bad : ε} {c : Codec UInt8 ε α}
    (h : (option (tag eof bad) c).take bs = .ok (none, rest)) : bs = 0 :: rest := by
  obtain ⟨mid, htag, hunit⟩ := take_of_sigma (take_of_map h)
  have hmid : mid = rest := (Prod.mk.inj (Except.ok.inj hunit)).2
  rw [← hmid]
  exact eq_cons_of_take_tag htag

theorem encodeVarint_ne_cons {n : Nat} (h : 0 < n) (bs : List UInt8) (more : List UInt8) :
    encodeVarint n ++ bs ≠ 0 :: more := by
  have htoNat : ∀ k : Nat, 0 < k → k < 256 → k.toUInt8 ≠ 0 := by
    intro k hpos hlt hzero
    have hval : k.toUInt8.toNat = k := by
      rw [Nat.toUInt8, UInt8.toNat_ofNat']
      omega
    rw [hzero] at hval
    exact absurd hval.symm (Nat.ne_of_gt hpos)
  intro heq
  rw [encodeVarint] at heq
  split at heq
  · exact htoNat n h (by omega) (List.cons.inj heq).1
  · exact htoNat (n % 128 + 128) (by omega) (by omega) (List.cons.inj heq).1

end Octets

end Codec

end Sqry
