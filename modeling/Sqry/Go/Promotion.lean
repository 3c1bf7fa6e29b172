import Mathlib.Order.WellFounded
import Sqry.Build.GlobalDedup
import Sqry.Go.PassSweep
import Sqry.Lib.Walks

/-!
Method promotion through embedded types. The walk enumerates embedding paths on a stack; a name is
ambiguous when more than one type promotes it at the least depth. What an embedded interface gives
is a parameter, and the counters of the pass are left out.
-/

namespace Sqry

abbrev EmbeddingAdjacency : Type := AList fun _ : NodeId => List (NodeId × Receiver)

def MAX_PROMOTION_DEPTH : Nat := 16

namespace CodeGraph
variable {π μ δ : Type} [DecidableEq π] (g : CodeGraph π μ δ)

def qualifiedNameString (id : NodeId) : Option String := (g.nodes.get id).bind g.qualifiedNameText

def isGoOrLanguageUnknown (id : NodeId) : Bool :=
  (g.nodes.get id).any fun entry =>
    match g.files.languageForFile entry.file with
    | none => true
    | some language => language = .go

def methodOfType (typeQn : String) (id : NodeId) : Option (StringId × NodeId) :=
  match g.nodes.get id with
  | none => none
  | some entry =>
    if !g.isGoOrLanguageUnknown id then none
    else
      match g.qualifiedNameText entry with
      | none => none
      | some qn =>
        let start := typeQn.toList ++ [':', ':']
        if start <+: qn.toList ∧ ¬[':', ':'] <:+: qn.toList.drop start.length then
          some (entry.name, id)
        else none

def findMethodNamesOfType (typeQn : String) : List (StringId × NodeId) :=
  SortedGroups.heads Prod.snd (SortedGroups.sortBy (fun a b => compare a.2.index b.2.index)
    ((Buckets.bucket g.indices.kindIndex .method).filterMap (g.methodOfType typeQn)))

def aliasTarget (innerQn : String) : List StoreEdgeRef → Option String
  | [] => none
  | edge :: edges =>
    match edge.kind with
    | .typeOf (some .typeParameter) _ _ =>
      match g.qualifiedNameString edge.target with
      | none => none
      | some qn => if qn ≠ innerQn then some qn else aliasTarget innerQn edges
    | _ => aliasTarget innerQn edges

def resolveAliasUnderlyingQn (inner : NodeId) (innerQn : String) : Option String :=
  match g.nodes.get inner with
  | none => none
  | some entry =>
    if entry.kind ≠ .type then none else g.aliasTarget innerQn (g.edges.edgesFrom inner)

def isInterface (id : NodeId) : Bool := (g.nodes.get id).any fun entry => entry.kind = .interface

def interfaceCompanion (inner : NodeId) (innerQn : String) : Option NodeId :=
  if g.isInterface inner then some inner
  else (g.strings.lookup.lookup innerQn).bind fun qn =>
    (g.indices.qualifiedNameIndex.entries.flatMap fun bucket =>
      if bucket.1.index = qn then bucket.2 else []).find? g.isInterface

def promotionMethodsForInner (flattened : NodeId → List (StringId × NodeId)) (inner : NodeId)
    (innerQn : String) : List (StringId × NodeId) :=
  match g.interfaceCompanion inner innerQn with
  | some node => flattened node
  | none => g.findMethodNamesOfType innerQn

end CodeGraph

inductive PromotionBucket where
  | value | pointerOnly
  deriving DecidableEq, Repr

structure PromotionCandidate where
  name : StringId
  definingMethod : NodeId
  promotingType : NodeId
  depth : Nat
  bucket : PromotionBucket
  deriving DecidableEq, Repr

structure PerOuterPromotion where
  value : List (StringId × NodeId)
  pointerOnly : List (StringId × NodeId)
  deriving DecidableEq, Repr

def PerOuterPromotion.all (p : PerOuterPromotion) : List (StringId × NodeId) :=
  p.value ++ p.pointerOnly

structure PromotionFrame where
  cur : NodeId
  depth : Nat
  chainPointerness : Receiver
  currentPath : List NodeId
  deriving DecidableEq, Repr

namespace Promotion

def PromotionFrame.start (outer : NodeId) : PromotionFrame := ⟨outer, 0, .value, [outer]⟩

def chain : Receiver → Receiver → Receiver
  | .pointer, _ | _, .pointer => .pointer
  | _, _ => .value

def bucketOf : Receiver → Receiver → PromotionBucket
  | .pointer, .value => .pointerOnly
  | _, _ => .value

structure PromotionPass (π μ δ : Type) [DecidableEq π] where
  graph : CodeGraph π μ δ
  flattened : NodeId → List (StringId × NodeId)
  adjacency : EmbeddingAdjacency
  methodReceivers : AList fun _ : NodeId => Receiver

namespace PromotionPass

section Walk
variable {π μ δ : Type} [DecidableEq π] (w : PromotionPass π μ δ)

def embeds (cur : NodeId) : List (NodeId × Receiver) := (w.adjacency.lookup cur).getD []

def receiverOf (method : NodeId) : Receiver := (w.methodReceivers.lookup method).getD .value

def innerMethods (inner : NodeId) : List (StringId × NodeId) :=
  match w.graph.qualifiedNameString inner with
  | none => []
  | some qn =>
    w.graph.promotionMethodsForInner w.flattened inner
      ((w.graph.resolveAliasUnderlyingQn inner qn).getD qn)

def nextFrames (f : PromotionFrame) : List PromotionFrame :=
  if f.depth ≥ MAX_PROMOTION_DEPTH then []
  else
    ((w.embeds f.cur).filter fun e =>
        e.1 ∉ f.currentPath ∧ (w.graph.qualifiedNameString e.1).isSome).map fun e =>
      ⟨e.1, f.depth + 1, chain f.chainPointerness e.2, e.1 :: f.currentPath⟩

def contributions (own : List StringId) (f : PromotionFrame) : List PromotionCandidate :=
  ((w.innerMethods f.cur).filter fun m => m.1 ∉ own).map fun m =>
    ⟨m.1, m.2, f.cur, f.depth, bucketOf (w.receiverOf m.2) f.chainPointerness⟩

def contributors (candidates : List PromotionCandidate) (name : StringId) :
    List PromotionCandidate :=
  let named := candidates.filter fun c => c.name = name
  named.filter fun c => some c.depth = (named.map PromotionCandidate.depth).min?

def isAmbiguous (found : List PromotionCandidate) : Bool :=
  (found.map PromotionCandidate.promotingType).dedup.length > 1

def winner (candidates : List PromotionCandidate) (bucket : PromotionBucket) (name : StringId) :
    Option (StringId × NodeId) :=
  let found := contributors candidates name
  if isAmbiguous found then none
  else
    let landed := if found.any fun c => c.bucket = .value then .value else .pointerOnly
    if bucket = landed then found.head?.map fun c => (name, c.definingMethod) else none

def resolvePromotions (candidates : List PromotionCandidate) : PerOuterPromotion :=
  let names := SortedGroups.heads id (SortedGroups.sortBy (fun a b => compare a.index b.index)
    (candidates.map PromotionCandidate.name))
  ⟨names.filterMap (winner candidates .value), names.filterMap (winner candidates .pointerOnly)⟩

def ownMethodNames (outer : NodeId) : List StringId :=
  ((w.graph.qualifiedNameString outer).elim [] w.graph.findMethodNamesOfType).map Prod.fst

/-- `none` when the fuel runs out. -/
def computePromotionsForOuter (fuel : Nat) (outer : NodeId) : Option PerOuterPromotion :=
  if (w.graph.qualifiedNameString outer).isNone then some ⟨[], []⟩
  else
    (Walks.walk w.nextFrames (fun f => (w.nextFrames f).flatMap
        (w.contributions (w.ownMethodNames outer)))
      fuel [PromotionFrame.start outer] []).map resolvePromotions

end Walk

section Meaning
variable {π μ δ : Type} [DecidableEq π] (w : PromotionPass π μ δ)

structure IsStructType (id : NodeId) : Prop where
  kind : (w.graph.nodes.get id).map (fun entry => entry.kind) = some .struct
  named : (w.graph.qualifiedNameString id).isSome
  alone : ∀ qn, w.graph.qualifiedNameString id = some qn → w.graph.interfaceCompanion id qn = none

def declared (id : NodeId) : List (StringId × NodeId) :=
  (w.graph.qualifiedNameString id).elim [] w.graph.findMethodNamesOfType

def IsEmbeddingPath : NodeId → List (NodeId × Receiver) → Prop
  | _, [] => True
  | cur, e :: steps => e ∈ w.embeds cur ∧ IsEmbeddingPath e.1 steps

def endOf (outer : NodeId) (steps : List (NodeId × Receiver)) : NodeId :=
  (steps.getLast?.map Prod.fst).getD outer

def IsSimple (outer : NodeId) (steps : List (NodeId × Receiver)) : Prop :=
  w.IsEmbeddingPath outer steps ∧ (outer :: steps.map Prod.fst).Nodup

structure Reaches (outer : NodeId) (name : StringId) (steps : List (NodeId × Receiver)) :
    Prop where
  path : w.IsEmbeddingPath outer steps
  nonempty : steps ≠ []
  declares : ∃ method, (name, method) ∈ w.declared (endOf outer steps)

structure IsNearest (outer : NodeId) (name : StringId) (steps : List (NodeId × Receiver)) :
    Prop extends w.Reaches outer name steps where
  least : ∀ other, w.Reaches outer name other → steps.length ≤ other.length

/-- The selector rule: just the names with one path at the least depth are promoted, each to the
method of its type and to the bucket that its receiver and the path call for. -/
structure FollowsSelectorRule (outer : NodeId) (p : PerOuterPromotion) : Prop where
  promoted_iff : ∀ name, (∃ method, (name, method) ∈ p.all) ↔
    name ∉ w.ownMethodNames outer ∧ ∃! steps, w.IsNearest outer name steps
  method : ∀ name method steps, (name, method) ∈ p.all →
    w.IsNearest outer name steps → (name, method) ∈ w.declared (endOf outer steps)
  bucket : ∀ name method steps, (name, method) ∈ p.all →
    w.IsNearest outer name steps →
      ((name, method) ∈ p.value ↔ w.receiverOf method = .value ∨
        ∃ e ∈ steps, e.2 = .pointer)

/-- Where two paths at the least depth lead to types that declare a name, two such types differ; and
where there is one without a pointer, the first method of the name is a value method if any is. -/
structure TypesTell (outer : NodeId) : Prop where
  types : ∀ name, name ∉ w.ownMethodNames outer → ∀ p q, w.IsNearest outer name p →
    w.IsNearest outer name q → p ≠ q → ∃ p' q', w.IsNearest outer name p' ∧
      w.IsNearest outer name q' ∧ endOf outer p' ≠ endOf outer q'
  first : ∀ name, name ∉ w.ownMethodNames outer → ∀ p, w.IsNearest outer name p →
    (∀ q, w.IsNearest outer name q → q = p) → (∀ e ∈ p, e.2 = .value) →
      (∃ x ∈ w.declared (endOf outer p), x.1 = name ∧ w.receiverOf x.2 = .value) →
        ∀ x, (w.declared (endOf outer p)).find? (fun x => x.1 = name) = some x →
          w.receiverOf x.2 = .value

structure InReach (outer : NodeId) : Prop where
  outer_struct : w.IsStructType outer
  inner_struct : ∀ cur, ∀ e ∈ w.embeds cur, w.IsStructType e.1
  shallow : ∀ steps, w.IsSimple outer steps → steps.length < MAX_PROMOTION_DEPTH

end Meaning

section Frames
variable {π μ δ : Type} [DecidableEq π] {w : PromotionPass π μ δ} {outer : NodeId}
  {steps : List (NodeId × Receiver)}

def frameOf (outer : NodeId) (steps : List (NodeId × Receiver)) : PromotionFrame where
  cur := endOf outer steps
  depth := steps.length
  chainPointerness := if ∀ e ∈ steps, e.2 = .value then .value else .pointer
  currentPath := (steps.map Prod.fst).reverse ++ [outer]

theorem endOf_concat (e : NodeId × Receiver) : endOf outer (steps ++ [e]) = e.1 := by
  simp [endOf]

theorem isEmbeddingPath_append {more : List (NodeId × Receiver)} :
    w.IsEmbeddingPath outer (steps ++ more) ↔ w.IsEmbeddingPath outer steps ∧
      w.IsEmbeddingPath (endOf outer steps) more := by
  induction steps generalizing outer with
  | nil => exact (and_iff_right trivial).symm
  | cons e steps ih =>
    have hend : endOf outer (e :: steps) = endOf e.1 steps := by
      cases steps <;> simp [endOf, List.getLast?_cons]
    rw [List.cons_append, IsEmbeddingPath, IsEmbeddingPath, ih, hend, and_assoc]

theorem frameOf_concat (e : NodeId × Receiver) : frameOf outer (steps ++ [e]) =
    ⟨e.1, (frameOf outer steps).depth + 1, chain (frameOf outer steps).chainPointerness e.2,
      e.1 :: (frameOf outer steps).currentPath⟩ := by
  have hchain : (if ∀ e' ∈ steps ++ [e], e'.2 = Receiver.value then Receiver.value else .pointer) =
      chain (if ∀ e' ∈ steps, e'.2 = Receiver.value then .value else .pointer) e.2 := by
    by_cases h : ∀ e' ∈ steps, e'.2 = Receiver.value
    · rw [if_pos h]
      cases he : e.2 with
      | value =>
        rw [if_pos fun e' he' => (List.mem_append.mp he').elim (h e') fun hlast =>
          List.mem_singleton.mp hlast ▸ he]
        rfl
      | pointer =>
        rw [if_neg fun hall => Receiver.noConfusion
          ((hall e (List.mem_append_right _ List.mem_cons_self)).symm.trans he)]
        rfl
    · rw [if_neg h, if_neg fun hall => h fun e' he' => hall e' (List.mem_append_left _ he')]
      cases e.2 <;> rfl
  simp only [frameOf, endOf_concat, hchain, List.length_append, List.length_singleton,
    List.map_append, List.map_cons, List.map_nil, List.reverse_append, List.reverse_singleton,
    List.nil_append, List.cons_append]

theorem isSimple_concat {e : NodeId × Receiver} : w.IsSimple outer (steps ++ [e]) ↔
    w.IsSimple outer steps ∧ e ∈ w.embeds (endOf outer steps) ∧
      e.1 ∉ (frameOf outer steps).currentPath := by
  have hpath : e.1 ∉ (frameOf outer steps).currentPath ↔ e.1 ∉ outer :: steps.map Prod.fst := by
    simp [frameOf, or_comm]
  rw [IsSimple, isEmbeddingPath_append, List.map_append, ← List.cons_append, hpath]
  simp only [List.map_cons, List.map_nil, List.nodup_append, IsEmbeddingPath, and_true, IsSimple,
    List.nodup_singleton, true_and, List.mem_singleton, forall_eq]
  constructor
  · rintro ⟨⟨hsteps, he⟩, hnodup, hnew⟩
    exact ⟨⟨hsteps, hnodup⟩, he, fun hmem => hnew e.1 hmem rfl⟩
  · rintro ⟨⟨hsteps, hnodup⟩, he, hnew⟩
    exact ⟨⟨hsteps, he⟩, hnodup, fun a ha heq => hnew (heq ▸ ha)⟩

variable (h : w.InReach outer)
include h

theorem mem_nextFrames (hsteps : w.IsSimple outer steps) {f : PromotionFrame} :
    f ∈ w.nextFrames (frameOf outer steps) ↔
      ∃ e, w.IsSimple outer (steps ++ [e]) ∧ f = frameOf outer (steps ++ [e]) := by
  have hdepth : ¬(frameOf outer steps).depth ≥ MAX_PROMOTION_DEPTH :=
    Nat.not_le.mpr (h.shallow steps hsteps)
  rw [nextFrames, if_neg hdepth, List.mem_map]
  refine exists_congr fun e => ?_
  rw [isSimple_concat, frameOf_concat, List.mem_filter, decide_eq_true_iff]
  constructor
  · rintro ⟨⟨he, hnew, -⟩, rfl⟩
    exact ⟨⟨hsteps, he, hnew⟩, rfl⟩
  · rintro ⟨⟨-, he, hnew⟩, rfl⟩
    exact ⟨⟨he, hnew, (h.inner_struct _ e he).named⟩, rfl⟩

theorem bounded_frameOf {left : Nat} (hsteps : w.IsSimple outer steps)
    (hleft : MAX_PROMOTION_DEPTH ≤ steps.length + left + 1) :
    Walks.Bounded w.nextFrames left (frameOf outer steps) := by
  induction left generalizing steps with
  | zero =>
    refine List.eq_nil_iff_forall_not_mem.mpr fun f hf => ?_
    obtain ⟨e, he, -⟩ := (mem_nextFrames h hsteps).mp hf
    have hlt := h.shallow _ he
    rw [List.length_append, List.length_singleton] at hlt
    omega
  | succ left ih =>
    intro f hf
    obtain ⟨e, he, rfl⟩ := (mem_nextFrames h hsteps).mp hf
    refine ih he ?_
    rw [List.length_append, List.length_singleton]
    omega

theorem mem_visited {left : Nat} (hsteps : w.IsSimple outer steps) {f : PromotionFrame} :
    f ∈ Walks.visited w.nextFrames left (frameOf outer steps) ↔
      ∃ more, more.length ≤ left ∧ w.IsSimple outer (steps ++ more) ∧
        f = frameOf outer (steps ++ more) := by
  induction left generalizing steps with
  | zero =>
    rw [Walks.visited, List.mem_singleton]
    constructor
    · exact fun hf => ⟨[], Nat.le_refl 0, (List.append_nil steps).symm ▸ hsteps,
        (List.append_nil steps).symm ▸ hf⟩
    · rintro ⟨more, hmore, -, hf⟩
      rw [List.length_eq_zero_iff.mp (Nat.le_zero.mp hmore), List.append_nil] at hf
      exact hf
  | succ left ih =>
    rw [Walks.visited, List.mem_cons, List.mem_flatMap]
    constructor
    · rintro (hf | ⟨child, hchild, hf⟩)
      · exact ⟨[], Nat.zero_le _, (List.append_nil steps).symm ▸ hsteps,
          (List.append_nil steps).symm ▸ hf⟩
      · obtain ⟨e, he, rfl⟩ := (mem_nextFrames h hsteps).mp (List.mem_reverse.mp hchild)
        obtain ⟨more, hmore, hsimple, rfl⟩ := (ih he).mp hf
        rw [List.append_assoc] at hsimple
        exact ⟨e :: more, Nat.succ_le_succ hmore, hsimple, congrArg _ (List.append_assoc _ _ _)⟩
    · rintro ⟨more, hmore, hsimple, hf⟩
      cases more with
      | nil => exact .inl (hf.trans (congrArg _ (List.append_nil steps)))
      | cons e more =>
        have hsplit : steps ++ e :: more = (steps ++ [e]) ++ more := by simp
        rw [hsplit] at hsimple hf
        have he : w.IsSimple outer (steps ++ [e]) := by
          refine ⟨(isEmbeddingPath_append.mp hsimple.1).1, ?_⟩
          have hnodup := hsimple.2
          rw [List.map_append, ← List.cons_append] at hnodup
          exact (List.nodup_append.mp hnodup).1
        refine .inr ⟨frameOf outer (steps ++ [e]), ?_, (ih he).mpr
          ⟨more, Nat.le_of_succ_le_succ hmore, hsimple, hf⟩⟩
        exact List.mem_reverse.mpr ((mem_nextFrames h hsteps).mpr ⟨e, he, rfl⟩)

theorem mem_pushed {f : PromotionFrame} :
    f ∈ (Walks.visited w.nextFrames 15 (frameOf outer [])).flatMap
        w.nextFrames ↔
      ∃ steps, steps ≠ [] ∧ w.IsSimple outer steps ∧ f = frameOf outer steps := by
  have hstart : w.IsSimple outer [] := ⟨trivial, List.nodup_singleton outer⟩
  rw [List.mem_flatMap]
  constructor
  · rintro ⟨parent, hparent, hf⟩
    obtain ⟨steps, -, hsimple, rfl⟩ := (mem_visited h hstart).mp hparent
    obtain ⟨e, he, rfl⟩ := (mem_nextFrames h hsimple).mp hf
    exact ⟨[] ++ steps ++ [e], by simp, he, rfl⟩
  · rintro ⟨steps, hne, hsimple, rfl⟩
    obtain ⟨before, e, rfl⟩ := (List.eq_nil_or_concat' steps).resolve_left hne
    have hbefore := (isSimple_concat.mp hsimple).1
    refine ⟨frameOf outer before, (mem_visited h hstart).mpr ⟨before, ?_, hbefore, rfl⟩,
      (mem_nextFrames h hbefore).mpr ⟨e, hsimple, rfl⟩⟩
    have hlt := h.shallow _ hsimple
    rw [List.length_append, List.length_singleton, MAX_PROMOTION_DEPTH] at hlt
    omega

end Frames

section Nearest
variable {π μ δ : Type} [DecidableEq π] {w : PromotionPass π μ δ} {outer : NodeId}
  {name : StringId} {steps : List (NodeId × Receiver)}

theorem isChain_of_isEmbeddingPath (h : w.IsEmbeddingPath outer steps) :
    (outer :: steps.map Prod.fst).IsChain fun a b => ∃ r, (b, r) ∈ w.embeds a := by
  induction steps generalizing outer with
  | nil => exact List.isChain_singleton outer
  | cons e steps ih => exact List.isChain_cons_cons.mpr ⟨⟨e.2, h.1⟩, ih h.2⟩

theorem exists_isEmbeddingPath {nodes : List NodeId}
    (h : (outer :: nodes).IsChain fun a b => ∃ r, (b, r) ∈ w.embeds a) :
    ∃ steps, w.IsEmbeddingPath outer steps ∧ steps.map Prod.fst = nodes := by
  induction nodes generalizing outer with
  | nil => exact ⟨[], trivial, rfl⟩
  | cons node nodes ih =>
    obtain ⟨⟨r, hr⟩, hrest⟩ := List.isChain_cons_cons.mp h
    obtain ⟨steps, hsteps, hnodes⟩ := ih hrest
    exact ⟨(node, r) :: steps, ⟨hr, hsteps⟩, congrArg (node :: ·) hnodes⟩

theorem getLast?_nodes : (outer :: steps.map Prod.fst).getLast? = some (endOf outer steps) := by
  rw [List.getLast?_cons, endOf, List.getLast?_map]

theorem IsNearest.isSimple (hown : name ∉ w.ownMethodNames outer)
    (h : w.IsNearest outer name steps) : w.IsSimple outer steps := by
  refine ⟨h.path, ?_⟩
  obtain ⟨nodes, hhead, hlast, hnodup, hsub, hlength, hchain⟩ :=
    Walks.exists_nodup_chain (isChain_of_isEmbeddingPath h.path)
  cases nodes with
  | nil => cases hhead
  | cons first nodes =>
    cases hhead
    obtain ⟨other, hother, rfl⟩ := exists_isEmbeddingPath hchain
    have hend : endOf outer other = endOf outer steps := by
      rw [getLast?_nodes, getLast?_nodes] at hlast
      exact Option.some.inj hlast
    refine Walks.nodup_of_length_le hnodup hsub ?_
    have hreaches : w.Reaches outer name other := by
      refine ⟨hother, ?_, hend ▸ h.declares⟩
      rintro rfl
      obtain ⟨method, hmethod⟩ := h.declares
      rw [← hend] at hmethod
      exact hown (List.mem_map_of_mem (f := Prod.fst) hmethod)
    have hle := h.least other hreaches
    simp only [List.length_cons, List.length_map] at hle ⊢
    omega

theorem exists_isNearest (h : w.Reaches outer name steps) :
    ∃ p, w.IsNearest outer name p := by
  obtain ⟨p, hp, hleast⟩ := WellFounded.has_min (measure (List.length (α := NodeId × Receiver))).wf
    {p | w.Reaches outer name p} ⟨steps, h⟩
  exact ⟨p, hp, fun other hother => Nat.le_of_not_lt fun hlt => hleast other hother hlt⟩

end Nearest

section Contributors
variable {π μ δ : Type} [DecidableEq π] {w : PromotionPass π μ δ} {outer : NodeId}
  {name : StringId}

def offered (w : PromotionPass π μ δ) (outer : NodeId) (name : StringId)
    (steps : List (NodeId × Receiver)) : List PromotionCandidate :=
  ((w.declared (endOf outer steps)).filter fun m => m.1 = name).map fun m =>
    ⟨m.1, m.2, endOf outer steps, steps.length,
      bucketOf (w.receiverOf m.2) (frameOf outer steps).chainPointerness⟩

theorem innerMethods_eq {id : NodeId} (h : w.IsStructType id) :
    w.innerMethods id = w.declared id := by
  obtain ⟨qn, hqn⟩ := Option.isSome_iff_exists.mp h.named
  obtain ⟨entry, hentry, hkind⟩ := Option.map_eq_some_iff.mp h.kind
  have halias : w.graph.resolveAliasUnderlyingQn id qn = none := by
    simp [CodeGraph.resolveAliasUnderlyingQn, hentry, hkind]
  simp only [innerMethods, declared, hqn, halias, Option.getD_none,
    CodeGraph.promotionMethodsForInner, h.alone qn hqn, Option.elim_some]

theorem endOf_isStructType (h : w.InReach outer) {steps : List (NodeId × Receiver)}
    (hpath : w.IsEmbeddingPath outer steps) : w.IsStructType (endOf outer steps) := by
  cases List.eq_nil_or_concat' steps with
  | inl hnil => exact hnil ▸ h.outer_struct
  | inr hconcat =>
    obtain ⟨before, e, rfl⟩ := hconcat
    rw [endOf_concat]
    exact h.inner_struct _ e (isEmbeddingPath_append.mp hpath).2.1

theorem contributions_frameOf (h : w.InReach outer) {own : List StringId}
    (hown : name ∉ own) {steps : List (NodeId × Receiver)}
    (hpath : w.IsEmbeddingPath outer steps) :
    (w.contributions own (frameOf outer steps)).filter
        (fun c => c.name = name) = w.offered outer name steps := by
  have hcur : (frameOf outer steps).cur = endOf outer steps := rfl
  rw [contributions, offered, List.filter_map, List.filter_filter, hcur,
    innerMethods_eq (endOf_isStructType h hpath)]
  refine congrArg _ (List.filter_congr fun m _ => ?_)
  by_cases hm : m.1 = name
  · simp [hm, hown]
  · simp [hm]

theorem mem_offered {steps : List (NodeId × Receiver)} {c : PromotionCandidate}
    (hc : c ∈ w.offered outer name steps) :
    c.name = name ∧ (name, c.definingMethod) ∈ w.declared (endOf outer steps) ∧
      c.promotingType = endOf outer steps ∧ c.depth = steps.length := by
  obtain ⟨m, hm, rfl⟩ := List.mem_map.mp hc
  obtain ⟨hmem, heq⟩ := List.mem_filter.mp hm
  have hname : m.1 = name := of_decide_eq_true heq
  exact ⟨hname, hname ▸ hmem, rfl, rfl⟩

theorem offered_ne_nil {steps : List (NodeId × Receiver)} :
    w.offered outer name steps ≠ [] ↔
      ∃ method, (name, method) ∈ w.declared (endOf outer steps) := by
  rw [offered, ne_eq, List.map_eq_nil_iff, List.filter_eq_nil_iff]
  push Not
  constructor
  · rintro ⟨m, hm, heq⟩
    exact ⟨m.2, of_decide_eq_true heq ▸ hm⟩
  · rintro ⟨method, hmethod⟩
    exact ⟨_, hmethod, decide_eq_true rfl⟩

def candidates (w : PromotionPass π μ δ) (outer : NodeId) : List PromotionCandidate :=
  ((Walks.visited w.nextFrames 15 (frameOf outer [])).flatMap
    w.nextFrames).flatMap
      (w.contributions (w.ownMethodNames outer))

def promotions (w : PromotionPass π μ δ) (outer : NodeId) : PerOuterPromotion :=
  resolvePromotions (w.candidates outer)

theorem mem_named (h : w.InReach outer) (hown : name ∉ w.ownMethodNames outer)
    {c : PromotionCandidate} :
    c ∈ w.candidates outer ∧ c.name = name ↔
      ∃ steps, steps ≠ [] ∧ w.IsSimple outer steps ∧
        c ∈ w.offered outer name steps := by
  rw [candidates, List.mem_flatMap]
  constructor
  · rintro ⟨⟨f, hf, hc⟩, hname⟩
    obtain ⟨steps, hne, hsimple, rfl⟩ := (mem_pushed h).mp hf
    refine ⟨steps, hne, hsimple, ?_⟩
    rw [← contributions_frameOf h hown hsimple.1]
    exact List.mem_filter.mpr ⟨hc, decide_eq_true hname⟩
  · rintro ⟨steps, hne, hsimple, hc⟩
    refine ⟨⟨_, (mem_pushed h).mpr ⟨steps, hne, hsimple, rfl⟩, ?_⟩, (mem_offered hc).1⟩
    rw [← contributions_frameOf h hown hsimple.1] at hc
    exact (List.mem_filter.mp hc).1

theorem min_depth (h : w.InReach outer) (hown : name ∉ w.ownMethodNames outer)
    {p : List (NodeId × Receiver)} (hp : w.IsNearest outer name p) :
    (((w.candidates outer).filter
      fun c => c.name = name).map PromotionCandidate.depth).min? = some p.length := by
  rw [List.min?_eq_some_iff]
  constructor
  · obtain ⟨c, hc⟩ := List.exists_mem_of_ne_nil _
      (offered_ne_nil.mpr hp.declares)
    obtain ⟨hmem, hname⟩ := (mem_named h hown).mpr ⟨p, hp.nonempty, hp.isSimple hown, hc⟩
    exact List.mem_map.mpr ⟨c, List.mem_filter.mpr ⟨hmem, decide_eq_true hname⟩,
      (mem_offered hc).2.2.2⟩
  · intro depth hdepth
    obtain ⟨c, hc, rfl⟩ := List.mem_map.mp hdepth
    obtain ⟨hmem, hname⟩ := List.mem_filter.mp hc
    obtain ⟨steps, hne, hsimple, hoffer⟩ :=
      (mem_named h hown).mp ⟨hmem, of_decide_eq_true hname⟩
    obtain ⟨-, hdeclared, -, hlength⟩ := mem_offered hoffer
    rw [hlength]
    exact hp.least steps ⟨hsimple.1, hne, _, hdeclared⟩

theorem mem_contributors (h : w.InReach outer) (hown : name ∉ w.ownMethodNames outer)
    {c : PromotionCandidate} :
    c ∈ contributors (w.candidates outer) name ↔
      ∃ steps, w.IsNearest outer name steps ∧
        c ∈ w.offered outer name steps := by
  rw [contributors, List.mem_filter, List.mem_filter, decide_eq_true_iff, decide_eq_true_iff,
    mem_named h hown]
  constructor
  · rintro ⟨⟨steps, hne, hsimple, hc⟩, hmin⟩
    obtain ⟨-, hdeclared, -, hlength⟩ := mem_offered hc
    have hreaches : w.Reaches outer name steps := ⟨hsimple.1, hne, _, hdeclared⟩
    obtain ⟨p, hp⟩ := exists_isNearest hreaches
    rw [min_depth h hown hp, hlength] at hmin
    refine ⟨steps, ⟨hreaches, fun other hother => ?_⟩, hc⟩
    exact Option.some.inj hmin ▸ hp.least other hother
  · rintro ⟨steps, hnearest, hc⟩
    refine ⟨⟨steps, hnearest.nonempty, hnearest.isSimple hown, hc⟩, ?_⟩
    rw [min_depth h hown hnearest, (mem_offered hc).2.2.2]

end Contributors

section Winners
variable {π μ δ : Type} [DecidableEq π] {w : PromotionPass π μ δ} {outer : NodeId}
  {name : StringId}

theorem head?_flatMap_of_same {ι α : Type} {f : ι → List α} {l : List α} {items : List ι}
    (hsame : ∀ i ∈ items, f i = [] ∨ f i = l) (hthere : ∃ i ∈ items, f i = l) :
    (items.flatMap f).head? = l.head? := by
  induction items with
  | nil =>
    obtain ⟨i, hi, -⟩ := hthere
    cases hi
  | cons i items ih =>
    rw [List.flatMap_cons, List.head?_append]
    cases hsame i List.mem_cons_self with
    | inl hnil =>
      rw [hnil, List.head?_nil, Option.none_or]
      obtain ⟨j, hj, heq⟩ := hthere
      cases List.mem_cons.mp hj with
      | inl hij =>
        subst hij
        rw [hnil] at heq
        subst heq
        refine (congrArg List.head? (List.flatMap_eq_nil_iff.mpr fun k hk => ?_)).trans rfl
        exact (hsame k (List.mem_cons_of_mem _ hk)).elim id id
      | inr hj => exact ih (fun k hk => hsame k (List.mem_cons_of_mem _ hk)) ⟨j, hj, heq⟩
    | inr heq =>
      rw [heq]
      cases l with
      | nil =>
        refine (congrArg List.head? (List.flatMap_eq_nil_iff.mpr fun k hk => ?_)).trans rfl
        exact (hsame k (List.mem_cons_of_mem _ hk)).elim id id
      | cons => rfl

theorem head?_contributors (h : w.InReach outer) (hown : name ∉ w.ownMethodNames outer)
    {p : List (NodeId × Receiver)} (hp : w.IsNearest outer name p)
    (hunique : ∀ q, w.IsNearest outer name q → q = p) :
    (contributors (w.candidates outer) name).head? =
      (w.offered outer name p).head? := by
  have hsplit : ∀ steps, steps ≠ [] → w.IsSimple outer steps →
      ((w.contributions (w.ownMethodNames outer)
        (frameOf outer steps)).filter fun c => c.name = name).filter
          (fun c => some c.depth = some p.length) = [] ∨
      ((w.contributions (w.ownMethodNames outer)
        (frameOf outer steps)).filter fun c => c.name = name).filter
          (fun c => some c.depth = some p.length) = w.offered outer name p := by
    intro steps hne hsimple
    rw [contributions_frameOf h hown hsimple.1]
    by_cases hnil : (w.offered outer name steps).filter
        (fun c => some c.depth = some p.length) = []
    · exact .inl hnil
    · obtain ⟨c, hc⟩ := List.exists_mem_of_ne_nil _ hnil
      obtain ⟨hoffer, hdepth⟩ := List.mem_filter.mp hc
      obtain ⟨-, hdeclared, -, hlength⟩ := mem_offered hoffer
      have hdepth' : steps.length = p.length := by
        rw [← hlength]
        exact Option.some.inj (of_decide_eq_true hdepth)
      have hsteps : steps = p := hunique steps ⟨⟨hsimple.1, hne, _, hdeclared⟩, fun other hother =>
        hdepth' ▸ hp.least other hother⟩
      subst hsteps
      refine .inr (List.filter_eq_self.mpr fun c hc => ?_)
      rw [(mem_offered hc).2.2.2]
      exact decide_eq_true rfl
  rw [contributors, min_depth h hown hp, candidates, List.filter_flatMap, List.filter_flatMap]
  refine head?_flatMap_of_same (fun f hf => ?_) ?_
  · obtain ⟨steps, hne, hsimple, rfl⟩ := (mem_pushed h).mp hf
    exact hsplit steps hne hsimple
  · have hsimple := hp.isSimple hown
    refine ⟨_, (mem_pushed h).mpr ⟨p, hp.nonempty, hsimple, rfl⟩, ?_⟩
    rw [contributions_frameOf h hown hsimple.1]
    refine List.filter_eq_self.mpr fun c hc => ?_
    rw [(mem_offered hc).2.2.2]
    exact decide_eq_true rfl

theorem ambiguous_iff (h : w.InReach outer) (hown : name ∉ w.ownMethodNames outer) :
    isAmbiguous (contributors (w.candidates outer) name) = true ↔
      ∃ p q, w.IsNearest outer name p ∧ w.IsNearest outer name q ∧ endOf outer p ≠ endOf outer q := by
  have hmem : ∀ t, t ∈ ((contributors (w.candidates outer) name).map
      PromotionCandidate.promotingType).dedup ↔ ∃ p, w.IsNearest outer name p ∧ endOf outer p = t := by
    intro t
    rw [List.mem_dedup, List.mem_map]
    constructor
    · rintro ⟨c, hc, rfl⟩
      obtain ⟨p, hp, hoffer⟩ := (mem_contributors h hown).mp hc
      exact ⟨p, hp, (mem_offered hoffer).2.2.1.symm⟩
    · rintro ⟨p, hp, rfl⟩
      obtain ⟨c, hc⟩ := List.exists_mem_of_ne_nil _ (offered_ne_nil.mpr hp.declares)
      exact ⟨c, (mem_contributors h hown).mpr ⟨p, hp, hc⟩, (mem_offered hc).2.2.1⟩
  have hnodup := List.nodup_dedup ((contributors (w.candidates outer) name).map
    PromotionCandidate.promotingType)
  rw [isAmbiguous, decide_eq_true_iff]
  generalize ((contributors (w.candidates outer) name).map
    PromotionCandidate.promotingType).dedup = types at hmem hnodup
  constructor
  · intro hlength
    match types, hlength with
    | a :: b :: types, _ =>
      obtain ⟨p, hp, rfl⟩ := (hmem a).mp List.mem_cons_self
      obtain ⟨q, hq, rfl⟩ := (hmem b).mp (List.mem_cons_of_mem _ List.mem_cons_self)
      exact ⟨p, q, hp, hq, fun heq => (List.nodup_cons.mp hnodup).1 (heq ▸ List.mem_cons_self)⟩
  · rintro ⟨p, q, hp, hq, hne⟩
    have hp' := (hmem _).mpr ⟨p, hp, rfl⟩
    have hq' := (hmem _).mpr ⟨q, hq, rfl⟩
    match types, hp', hq' with
    | [t], hp', hq' =>
      exact absurd ((List.mem_singleton.mp hp').trans (List.mem_singleton.mp hq').symm) hne
    | _ :: _ :: _, _, _ => simp

def landed (found : List PromotionCandidate) : PromotionBucket :=
  if found.any fun c => c.bucket = .value then .value else .pointerOnly

theorem winner_eq_some {candidates : List PromotionCandidate} {bucket : PromotionBucket}
    {x : StringId × NodeId} : winner candidates bucket name = some x ↔
      ¬isAmbiguous (contributors candidates name) = true ∧
        bucket = landed (contributors candidates name) ∧
          ∃ c, (contributors candidates name).head? = some c ∧ (name, c.definingMethod) = x := by
  simp only [winner, landed, Option.ite_none_left_eq_some, Option.ite_none_right_eq_some,
    Option.map_eq_some_iff]

theorem mem_resolvePromotions {candidates : List PromotionCandidate} {method : NodeId} :
    ((name, method) ∈ (resolvePromotions candidates).value ↔
        winner candidates .value name = some (name, method)) ∧
      ((name, method) ∈ (resolvePromotions candidates).pointerOnly ↔
        winner candidates .pointerOnly name = some (name, method)) := by
  have hmem : ∀ bucket, (name, method) ∈ (SortedGroups.heads id (SortedGroups.sortBy
      (fun a b => compare a.index b.index) (candidates.map PromotionCandidate.name))).filterMap
        (winner candidates bucket) ↔ winner candidates bucket name = some (name, method) := by
    intro bucket
    rw [List.mem_filterMap]
    constructor
    · rintro ⟨other, -, hwins⟩
      obtain ⟨-, -, c, -, hx⟩ := winner_eq_some.mp hwins
      cases hx
      exact hwins
    · intro hwins
      obtain ⟨-, -, c, hc, -⟩ := winner_eq_some.mp hwins
      obtain ⟨hall, hname⟩ := List.mem_filter.mp (List.mem_filter.mp (List.mem_of_head? hc)).1
      refine ⟨name, SortedGroups.mem_heads_id.mpr (SortedGroups.mem_sortBy.mpr ?_), hwins⟩
      exact List.mem_map.mpr ⟨c, hall, of_decide_eq_true hname⟩
  exact ⟨hmem .value, hmem .pointerOnly⟩

theorem mem_promoted {candidates : List PromotionCandidate} {method : NodeId} :
    ((name, method) ∈ (resolvePromotions candidates).all ↔
        ¬isAmbiguous (contributors candidates name) = true ∧
          ∃ c, (contributors candidates name).head? = some c ∧ c.definingMethod = method) ∧
      ((name, method) ∈ (resolvePromotions candidates).all →
        ((name, method) ∈ (resolvePromotions candidates).value ↔
          ∃ c ∈ contributors candidates name, c.bucket = .value)) := by
  have hvalue : landed (contributors candidates name) = .value ↔
      ∃ c ∈ contributors candidates name, c.bucket = .value := by
    simp [landed]
  rw [PerOuterPromotion.all, List.mem_append, mem_resolvePromotions.1, mem_resolvePromotions.2,
    winner_eq_some, winner_eq_some, ← hvalue]
  simp only [Prod.mk.injEq, true_and]
  cases landed (contributors candidates name) with
  | value => simp
  | pointerOnly => simp

end Winners

section Rule
variable {π μ δ : Type} [DecidableEq π] {w : PromotionPass π μ δ} {outer : NodeId}
  {name : StringId}

theorem contributors_own (hown : name ∈ w.ownMethodNames outer) :
    contributors (w.candidates outer) name = [] := by
  refine List.eq_nil_iff_forall_not_mem.mpr fun c hc => ?_
  obtain ⟨hall, hname⟩ := List.mem_filter.mp (List.mem_filter.mp hc).1
  obtain ⟨f, -, hf⟩ := List.mem_flatMap.mp hall
  obtain ⟨m, hm, rfl⟩ := List.mem_map.mp hf
  have hnot := of_decide_eq_true (List.mem_filter.mp hm).2
  have heq : m.1 = name := of_decide_eq_true hname
  exact hnot (heq ▸ hown)

variable (h : w.InReach outer)
include h

theorem exists_promoted (hown : name ∉ w.ownMethodNames outer)
    {p : List (NodeId × Receiver)} (hp : w.IsNearest outer name p)
    (hsame : ∀ p q, w.IsNearest outer name p → w.IsNearest outer name q →
      endOf outer p = endOf outer q) :
    ∃ method, (name, method) ∈
      (w.promotions outer).all
    := by
  obtain ⟨c, hc⟩ := List.exists_mem_of_ne_nil _
    (offered_ne_nil.mpr hp.declares)
  have hmem := (mem_contributors h hown).mpr ⟨p, hp, hc⟩
  obtain ⟨first, hfirst⟩ := Option.isSome_iff_exists.mp
    (List.isSome_head?.mpr (List.ne_nil_of_mem hmem))
  refine ⟨first.definingMethod, mem_promoted.1.mpr ⟨fun hgt => ?_, first, hfirst, rfl⟩⟩
  obtain ⟨p, q, hp, hq, hne⟩ := (ambiguous_iff h hown).mp hgt
  exact hne (hsame p q hp hq)

theorem bucket_value_iff (hown : name ∉ w.ownMethodNames outer) {p : List (NodeId × Receiver)}
    (hp : w.IsNearest outer name p)
    (hunique : ∀ q, w.IsNearest outer name q → q = p) :
    (∃ c ∈ contributors (w.candidates outer) name,
        c.bucket = .value) ↔
      (∃ x ∈ w.declared (endOf outer p), x.1 = name ∧ w.receiverOf x.2 = .value) ∨
        ∃ e ∈ p, e.2 = .pointer := by
  have hbucket : ∀ r, bucketOf r (frameOf outer p).chainPointerness = .value ↔
      r = .value ∨ ∃ e ∈ p, e.2 = .pointer := by
    intro r
    by_cases hall : ∀ e ∈ p, e.2 = Receiver.value
    · have hnone : ¬∃ e ∈ p, e.2 = Receiver.pointer := fun ⟨e, he, heq⟩ =>
        Receiver.noConfusion ((hall e he).symm.trans heq)
      have hchain : (frameOf outer p).chainPointerness = .value := if_pos hall
      rw [hchain, or_iff_left hnone]
      cases r <;> decide
    · have hsome : ∃ e ∈ p, e.2 = Receiver.pointer := by
        push Not at hall
        obtain ⟨e, he, hne⟩ := hall
        refine ⟨e, he, ?_⟩
        cases hr : e.2 with
        | value => exact absurd hr hne
        | pointer => rfl
      have hchain : (frameOf outer p).chainPointerness = .pointer := if_neg hall
      rw [hchain]
      exact iff_of_true (by cases r <;> rfl) (.inr hsome)
  constructor
  · rintro ⟨c, hc, hvalue⟩
    obtain ⟨q, hq, hoffer⟩ := (mem_contributors h hown).mp hc
    cases hunique q hq
    obtain ⟨x, hx, rfl⟩ := List.mem_map.mp hoffer
    obtain ⟨hx, hname⟩ := List.mem_filter.mp hx
    exact ((hbucket _).mp hvalue).imp (fun hr => ⟨x, hx, of_decide_eq_true hname, hr⟩) id
  · intro hor
    have hcandidate : ∀ x ∈ w.declared (endOf outer p), x.1 = name →
        (w.receiverOf x.2 = .value ∨ ∃ e ∈ p, e.2 = .pointer) →
        ∃ c ∈ contributors (w.candidates outer) name,
          c.bucket = .value := fun x hx hname hr =>
      ⟨_, (mem_contributors h hown).mpr ⟨p, hp, List.mem_map.mpr
        ⟨x, List.mem_filter.mpr ⟨hx, decide_eq_true hname⟩, rfl⟩⟩, (hbucket _).mpr hr⟩
    cases hor with
    | inl hmethod =>
      obtain ⟨x, hx, hname, hr⟩ := hmethod
      exact hcandidate x hx hname (.inl hr)
    | inr hpointer =>
      obtain ⟨method, hmethod⟩ := hp.declares
      exact hcandidate _ hmethod rfl (.inr hpointer)

theorem promoted_find? (hown : name ∉ w.ownMethodNames outer) {p : List (NodeId × Receiver)}
    (hp : w.IsNearest outer name p)
    (hunique : ∀ q, w.IsNearest outer name q → q = p) {method : NodeId}
    (hmethod : (name, method) ∈
      (w.promotions outer).all)
    : ∃ x, (w.declared (endOf outer p)).find? (fun x => x.1 = name) = some x ∧ x.2 = method := by
  obtain ⟨-, c, hc, rfl⟩ := mem_promoted.1.mp hmethod
  rw [head?_contributors h hown hp hunique, offered, List.head?_map, List.head?_filter] at hc
  obtain ⟨x, hx, rfl⟩ := Option.map_eq_some_iff.mp hc
  exact ⟨x, hx, rfl⟩

theorem followsSelectorRule_iff : w.FollowsSelectorRule outer
    (w.promotions outer) ↔
      w.TypesTell outer := by
  have hname : ∀ {name method}, (name, method) ∈
      (w.promotions outer).all
      → name ∉ w.ownMethodNames outer := by
    intro name method hmethod hown
    obtain ⟨-, c, hc, -⟩ := mem_promoted.1.mp hmethod
    rw [contributors_own hown] at hc
    cases hc
  constructor
  · intro hrule
    refine ⟨fun name hown p q hp hq hne => ?_, fun name hown p hp hunique hvalue hsome x hx => ?_⟩
    · by_contra hnone
      push Not at hnone
      obtain ⟨steps, -, hall⟩ := ((hrule.promoted_iff name).mp
        (exists_promoted h hown hp hnone)).2
      exact hne ((hall p hp).trans (hall q hq).symm)
    · obtain ⟨method, hmethod⟩ := exists_promoted h hown hp
       
        fun a b ha hb => (hunique a ha).symm ▸ (hunique b hb).symm ▸ rfl
      obtain ⟨y, hy, rfl⟩ := promoted_find? h hown hp hunique hmethod
      cases hx.symm.trans hy
      have hlands := (mem_promoted.2 hmethod).mpr
        ((bucket_value_iff h hown hp hunique).mpr (.inl hsome))
      refine ((hrule.bucket name x.2 p hmethod hp).mp hlands).resolve_right ?_
      rintro ⟨e, he, hpointer⟩
      exact Receiver.noConfusion ((hvalue e he).symm.trans hpointer)
  · intro htell
    have hunique : ∀ {name method p}, (name, method) ∈
        (w.promotions outer).all →
        w.IsNearest outer name p →
        ∀ q, w.IsNearest outer name q → q = p := by
      intro name method p hmethod hp q hq
      have hown := hname hmethod
      by_contra hne
      exact (mem_promoted.1.mp hmethod).1
        ((ambiguous_iff h hown).mpr (htell.types name hown q p hq hp hne))
    refine ⟨fun name => ⟨?_, ?_⟩, fun name method p hmethod hp => ?_,
      fun name method p hmethod hp => ?_⟩
    · rintro ⟨method, hmethod⟩
      have hown := hname hmethod
      obtain ⟨-, c, hc, -⟩ := mem_promoted.1.mp hmethod
      obtain ⟨p, hp, -⟩ := (mem_contributors h hown).mp (List.mem_of_head? hc)
      exact ⟨hown, p, hp, hunique hmethod hp⟩
    · rintro ⟨hown, p, hp, hall⟩
      exact exists_promoted h hown hp fun a b ha hb => (hall a ha).symm ▸ (hall b hb).symm ▸ rfl
    · obtain ⟨x, hx, rfl⟩ := promoted_find? h (hname hmethod) hp (hunique hmethod hp) hmethod
      have heq : x.1 = name := by simpa using List.find?_some hx
      exact heq ▸ List.mem_of_find?_eq_some hx
    · have hown := hname hmethod
      obtain ⟨x, hx, rfl⟩ := promoted_find? h hown hp (hunique hmethod hp) hmethod
      have heq : x.1 = name := by simpa using List.find?_some hx
      rw [promotions, mem_promoted.2 hmethod, bucket_value_iff h hown hp (hunique hmethod hp)]
      constructor
      · rintro (hsome | hpointer)
        · by_cases hvalue : ∀ e ∈ p, e.2 = Receiver.value
          · exact .inl (htell.first name hown p hp (hunique hmethod hp) hvalue hsome x hx)
          · push Not at hvalue
            obtain ⟨e, he, hne⟩ := hvalue
            refine .inr ⟨e, he, ?_⟩
            cases hr : e.2 with
            | value => exact absurd hr hne
            | pointer => rfl
        · exact .inr hpointer
      · exact fun hor => hor.imp (fun hr => ⟨x, List.mem_of_find?_eq_some hx, heq, hr⟩) id

end Rule

/-- The walk ends, and what it promotes follows the selector rule just when the types tell. -/
theorem promotions_follow_selector_rule_iff {π μ δ : Type} [DecidableEq π]
    (w : PromotionPass π μ δ) (outer : NodeId) (h : w.InReach outer) : ∃ p,
      (∃ least, ∀ fuel, least ≤ fuel → w.computePromotionsForOuter fuel outer = some p) ∧
      (w.FollowsSelectorRule outer p ↔ w.TypesTell outer) := by
  refine ⟨w.promotions outer, ?_, followsSelectorRule_iff h⟩
  have hstart : w.IsSimple outer [] := ⟨trivial, List.nodup_singleton outer⟩
  have hbounded : Walks.Bounded w.nextFrames 15 (frameOf outer []) :=
    bounded_frameOf h hstart (by decide)
  obtain ⟨least, hleast⟩ := @Walks.exists_walk _ _ _ (fun f => (w.nextFrames f).flatMap
    (w.contributions (w.ownMethodNames outer))) _ _ hbounded
  refine ⟨least, fun fuel hfuel => ?_⟩
  have hnamed : ¬(w.graph.qualifiedNameString outer).isNone = true := by
    rw [Option.isNone_iff_eq_none, ← ne_eq, Option.ne_none_iff_isSome]
    exact h.outer_struct.named
  have hframe : PromotionFrame.start outer = frameOf outer [] := rfl
  rw [computePromotionsForOuter, if_neg hnamed, hframe, hleast fuel hfuel, Option.map_some,
    promotions, candidates, List.flatMap_assoc]

section Diamond

def embeddingNode (index : Nat) : NodeId := ⟨index, 1⟩

/-- The structs `O`, `A`, `B` and `C`, and a method of `C`. -/
def diamondNodes : NodeArena FullNodeEntry where
  slots := ([1, 2, 3, 4].map fun name => ⟨1, .occupied { FullNodeEntry.new .struct (.ofUInt8 name) 1
      with qualifiedName := some (.ofUInt8 name) }⟩) ++
    [⟨1, .occupied { FullNodeEntry.new .method (.ofUInt8 6) 1 with
      qualifiedName := some (.ofUInt8 5) }⟩]
  freeHead := none
  len := 5

/-- `O` embeds `A` and `B`, which both embed `C`. -/
def diamond : PromotionPass String Nat Unit where
  graph := { (CodeGraph.new : CodeGraph String Nat Unit) with
    nodes := diamondNodes
    strings := ⟨[none, some "p.O", some "p.A", some "p.B", some "p.C", some "p.C::m", some "m"],
      ∅, [], [], none, false⟩
    files := (Registry.FileRegistry.new.registerCanonicalWithLanguage "a.go" (some .go)).1
    indices := AuxiliaryIndices.buildFromArena diamondNodes }
  flattened := fun _ => []
  adjacency := ((AList.singleton (embeddingNode 0)
      [(embeddingNode 1, Receiver.value), (embeddingNode 2, .value)]).insert (embeddingNode 1)
      [(embeddingNode 3, .value)]).insert (embeddingNode 2) [(embeddingNode 3, .value)]
  methodReceivers := ∅

theorem embeds_diamond {cur : NodeId} {e : NodeId × Receiver} (h : e ∈ diamond.embeds cur) :
    e.1 ∈ [embeddingNode 1, embeddingNode 2, embeddingNode 3] := by
  have hkeys : ∀ key ∈ diamond.adjacency.keys, ∀ e ∈ diamond.embeds key,
      e.1 ∈ [embeddingNode 1, embeddingNode 2, embeddingNode 3] := by decide +kernel
  by_cases hcur : cur ∈ diamond.adjacency
  · exact hkeys cur (AList.mem_keys.mp hcur) e h
  · rw [embeds, AList.lookup_eq_none.mpr hcur] at h
    cases h

theorem ends_diamond {outer : NodeId} {steps : List (NodeId × Receiver)}
    (h : diamond.IsEmbeddingPath outer steps) :
    ∀ e ∈ steps, e.1 ∈ [embeddingNode 1, embeddingNode 2, embeddingNode 3] := by
  induction steps generalizing outer with
  | nil => exact fun _ he => absurd he List.not_mem_nil
  | cons e steps ih =>
    exact List.forall_mem_cons.mpr ⟨embeds_diamond h.1, ih h.2⟩

theorem inReach_diamond : diamond.InReach (embeddingNode 0) where
  outer_struct := ⟨by decide +kernel, by decide +kernel, by decide +kernel⟩
  inner_struct := by
    intro cur e he
    have hstructs : ∀ id ∈ [embeddingNode 1, embeddingNode 2, embeddingNode 3],
        (diamond.graph.nodes.get id).map (fun entry => entry.kind) = some NodeKind.struct ∧
          ∃ qn, diamond.graph.qualifiedNameString id = some qn ∧
            diamond.graph.interfaceCompanion id qn = none := by
      simp only [List.forall_mem_cons, List.not_mem_nil]
      exact ⟨⟨by decide +kernel, "p.A", by decide +kernel, by decide +kernel⟩,
        ⟨by decide +kernel, "p.B", by decide +kernel, by decide +kernel⟩,
        ⟨by decide +kernel, "p.C", by decide +kernel, by decide +kernel⟩,
        fun _ h => h.elim⟩
    obtain ⟨hkind, qn, hqn, halone⟩ := hstructs e.1 (embeds_diamond he)
    refine ⟨hkind, hqn ▸ rfl, fun other hother => ?_⟩
    cases hqn.symm.trans hother
    exact halone
  shallow := by
    intro steps hsimple
    have hsub : (steps.map Prod.fst) ⊆ [embeddingNode 1, embeddingNode 2, embeddingNode 3] := by
      intro id hid
      obtain ⟨e, he, rfl⟩ := List.mem_map.mp hid
      exact ends_diamond hsimple.1 e he
    have hle := (List.subperm_of_subset (List.nodup_cons.mp hsimple.2).2 hsub).length_le
    rw [List.length_map] at hle
    exact Nat.lt_of_le_of_lt hle (by decide)

theorem promotions_follow_selector_rule_diamond : diamond.InReach (embeddingNode 0) ∧ ∃ p,
    (∃ least, ∀ fuel, least ≤ fuel →
      diamond.computePromotionsForOuter fuel (embeddingNode 0) = some p) ∧
    (diamond.FollowsSelectorRule (embeddingNode 0) p ↔ diamond.TypesTell (embeddingNode 0)) :=
  ⟨inReach_diamond, promotions_follow_selector_rule_iff diamond (embeddingNode 0) inReach_diamond⟩

/-- Two paths lead to `C`, and its method is promoted all the same. -/
theorem diamond_promotes_ambiguous : diamond.InReach (embeddingNode 0) ∧
    diamond.computePromotionsForOuter 9 (embeddingNode 0) =
      some ⟨[(.ofUInt8 6, embeddingNode 4)], []⟩ ∧
    ¬diamond.FollowsSelectorRule (embeddingNode 0) ⟨[(.ofUInt8 6, embeddingNode 4)], []⟩ := by
  refine ⟨inReach_diamond, by decide +kernel, fun h => ?_⟩
  have hnearest : ∀ between ∈ [embeddingNode 1, embeddingNode 2],
      diamond.IsNearest (embeddingNode 0) (.ofUInt8 6)
        [(between, .value), (embeddingNode 3, .value)] := by
    intro between hbetween
    have hsteps : ∀ between ∈ [embeddingNode 1, embeddingNode 2],
        (between, Receiver.value) ∈ diamond.embeds (embeddingNode 0) ∧
          (embeddingNode 3, Receiver.value) ∈ diamond.embeds between := by
      decide +kernel
    obtain ⟨hfirst, hsecond⟩ := hsteps between hbetween
    refine ⟨⟨⟨hfirst, hsecond, trivial⟩, List.cons_ne_nil _ _, embeddingNode 4, ?_⟩, ?_⟩
    · revert between
      decide +kernel
    · rintro (_ | ⟨e, _ | ⟨e', other⟩⟩) hother
      · exact absurd rfl hother.nonempty
      · obtain ⟨method, hmethod⟩ := hother.declares
        have hempty : ∀ e ∈ diamond.embeds (embeddingNode 0), diamond.declared e.1 = [] := by
          decide +kernel
        have hnone : diamond.declared (endOf (embeddingNode 0) [e]) = [] :=
          hempty e hother.path.1
        rw [hnone] at hmethod
        cases hmethod
      · exact Nat.le_add_left 2 other.length
  obtain ⟨-, steps, -, hunique⟩ := (h.promoted_iff (.ofUInt8 6)).mp
    ⟨embeddingNode 4, List.mem_cons_self⟩
  have hsame := (hunique _ (hnearest (embeddingNode 1) (by decide))).trans
    (hunique _ (hnearest (embeddingNode 2) (by decide))).symm
  revert hsame
  decide

end Diamond

end PromotionPass
end Promotion
end Sqry
