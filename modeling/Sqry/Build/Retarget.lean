import Sqry.Build.BulkInsert
import Sqry.Edge.Withdraw

/-!
Retargeting the edges of merged nodes, while the edges are pending and when they are committed.
The committed edges are moved one by one, loser by loser. A move takes an edge away and puts the
redirected one in its place, unless that would be a loop.
-/

namespace Sqry

structure NodeRemapTable where
  map : AList fun _ : NodeId => NodeId

namespace NodeRemapTable
variable (t : NodeRemapTable)

def isEmpty : Bool := t.map.entries.isEmpty

def redirect (node : NodeId) : NodeId :=
  match t.map.lookup node with
  | some winner => winner
  | none => node

def applyToEdge (edge : PendingEdge) : PendingEdge :=
  { edge with source := t.redirect edge.source, target := t.redirect edge.target }

def applyToEdges (edgeVecs : List (List PendingEdge)) : List (List PendingEdge) :=
  if t.isEmpty then edgeVecs else edgeVecs.map fun edges => edges.map t.applyToEdge

def retargetIncoming (loser winner : NodeId) (b : BidirectionalEdgeStore) (edge : StoreEdgeRef) :
    BidirectionalEdgeStore :=
  let newSource := t.redirect edge.source
  let b := b.removeEdge edge.source loser edge.kind edge.file
  if newSource = winner then b
  else b.addEdgeWithSpans newSource winner edge.kind edge.file edge.spans

def retargetOutgoing (loser winner : NodeId) (b : BidirectionalEdgeStore) (edge : StoreEdgeRef) :
    BidirectionalEdgeStore :=
  let newTarget := t.redirect edge.target
  let b := b.removeEdge loser edge.target edge.kind edge.file
  if newTarget = winner then b
  else b.addEdgeWithSpans winner newTarget edge.kind edge.file edge.spans

def visitLoser (b : BidirectionalEdgeStore) (entry : Sigma fun _ : NodeId => NodeId) :
    BidirectionalEdgeStore :=
  let b := (b.edgesTo entry.1).foldl (t.retargetIncoming entry.1 entry.2) b
  (b.edgesFrom entry.1).foldl (t.retargetOutgoing entry.1 entry.2) b

def applyToCommittedEdges (b : BidirectionalEdgeStore) : BidirectionalEdgeStore :=
  if t.isEmpty then b else t.map.entries.foldl t.visitLoser b

def Settled : Prop := ∀ loser winner, t.map.lookup loser = some winner → winner ∉ t.map

def redirectKey (key : EdgeKey) : EdgeKey := ⟨t.redirect key.source, t.redirect key.target, key.kind⟩

def mentioned (edges : List PendingEdge) : List NodeId :=
  (t.map.entries.flatMap fun entry => [entry.1, entry.2]) ++
    edges.flatMap fun edge => [edge.source, edge.target]

end NodeRemapTable

def OneGeneration (nodes : List NodeId) : Prop :=
  ∀ a ∈ nodes, ∀ b ∈ nodes, a.index = b.index → a = b

def Live (b : BidirectionalEdgeStore) (key : EdgeKey) (file : FileId) : Prop :=
  ∃ x ∈ b.edgesFrom key.source, x.key = key ∧ x.file = file

instance (b : BidirectionalEdgeStore) (key : EdgeKey) (file : FileId) :
    Decidable (Live b key file) :=
  inferInstanceAs (Decidable (∃ x ∈ b.edgesFrom key.source, x.key = key ∧ x.file = file))

theorem Holds.live_iff {b : BidirectionalEdgeStore} {content : EdgeKey → Option FileId}
    (h : Holds b content) (key : EdgeKey) (file : FileId) :
    Live b key file ↔ content key = some file := by
  constructor
  · intro hlive
    obtain ⟨x, hx, hkey, hfile⟩ := hlive
    have hreported := (EdgeStore.mem_edgesFrom_of_none h.forward_csr hx).2
    rw [h.forward_fileOf, hkey, hfile] at hreported
    exact hreported
  · intro hcontent
    exact EdgeStore.exists_mem_edgesFrom h.forward_csr
      ((h.forward_fileOf key).trans hcontent) rfl

namespace NodeRemapTable
variable {t : NodeRemapTable}

section Redirect

theorem redirect_of_notMem {node : NodeId} (h : node ∉ t.map) : t.redirect node = node := by
  rw [redirect, AList.lookup_eq_none.mpr h]

theorem redirect_of_lookup {loser winner : NodeId} (h : t.map.lookup loser = some winner) :
    t.redirect loser = winner := by
  rw [redirect, h]

theorem redirect_notMem (h : t.Settled) (node : NodeId) : t.redirect node ∉ t.map := by
  cases hlookup : t.map.lookup node with
  | none =>
    have hout := AList.lookup_eq_none.mp hlookup
    rw [redirect_of_notMem hout]
    exact hout
  | some winner =>
    rw [redirect_of_lookup hlookup]
    exact h node winner hlookup

theorem redirect_redirect (h : t.Settled) (node : NodeId) :
    t.redirect (t.redirect node) = t.redirect node :=
  redirect_of_notMem (redirect_notMem h node)

theorem redirectKey_redirectKey (h : t.Settled) (key : EdgeKey) :
    t.redirectKey (t.redirectKey key) = t.redirectKey key := by
  rw [redirectKey, redirectKey, redirect_redirect h, redirect_redirect h]

def Clean (t : NodeRemapTable) (key : EdgeKey) : Prop := key.source ∉ t.map ∧ key.target ∉ t.map

theorem clean_redirectKey (h : t.Settled) (key : EdgeKey) : t.Clean (t.redirectKey key) :=
  ⟨redirect_notMem h key.source, redirect_notMem h key.target⟩

theorem redirectKey_of_clean {key : EdgeKey} (h : t.Clean key) : t.redirectKey key = key := by
  rw [redirectKey, redirect_of_notMem h.1, redirect_of_notMem h.2]

theorem mem_mentioned_redirect {edges : List PendingEdge} {node : NodeId}
    (h : node ∈ t.mentioned edges) : t.redirect node ∈ t.mentioned edges := by
  cases hlookup : t.map.lookup node with
  | none =>
    rw [redirect_of_notMem (AList.lookup_eq_none.mp hlookup)]
    exact h
  | some winner =>
    rw [redirect_of_lookup hlookup]
    refine List.mem_append_left _ (List.mem_flatMap.mpr ⟨⟨node, winner⟩, ?_, ?_⟩)
    · exact AList.mem_lookup_iff.mp hlookup
    · exact List.mem_cons_of_mem _ List.mem_cons_self

theorem mem_mentioned_loser {edges : List PendingEdge} {loser winner : NodeId}
    (h : t.map.lookup loser = some winner) : loser ∈ t.mentioned edges :=
  List.mem_append_left _ (List.mem_flatMap.mpr
    ⟨⟨loser, winner⟩, AList.mem_lookup_iff.mp h, List.mem_cons_self⟩)

end Redirect

section Moves
variable {edges : List PendingEdge} {content : EdgeKey → Option FileId}

def move (t : NodeRemapTable) (content : EdgeKey → Option FileId) (item : EdgeKey × FileId) :
    EdgeKey → Option FileId :=
  if t.redirect item.1.source = t.redirect item.1.target then
    Function.update content item.1 none
  else
    Function.update (Function.update content item.1 none) (t.redirectKey item.1) (some item.2)

/-- The edge stands for one of the list. A loop is one that is in the list itself. -/
structure Origin (t : NodeRemapTable) (edges : List PendingEdge) (key : EdgeKey) (file : FileId) :
    Prop where
  edge : ∃ edge ∈ edges, edge.file = file ∧ t.redirectKey edge.edgeKey = t.redirectKey key ∧
    (t.redirect key.source = t.redirect key.target → edge.edgeKey = key)
  source : key.source ∈ t.mentioned edges
  target : key.target ∈ t.mentioned edges

/-- What the moves keep: what lives stands for edges of the list, and the edges of the list are
stood for, but for those that become loops by a redirection. -/
structure Moved (t : NodeRemapTable) (edges : List PendingEdge)
    (content : EdgeKey → Option FileId) : Prop where
  origin : ∀ key file, content key = some file → t.Origin edges key file
  kept : ∀ edge ∈ edges, t.redirect edge.source ≠ t.redirect edge.target →
    ∃ key file, content key = some file ∧ t.redirectKey key = t.redirectKey edge.edgeKey
  native : ∀ edge ∈ edges, t.Clean edge.edgeKey → ∃ file, content edge.edgeKey = some file

variable {item : EdgeKey × FileId} {key : EdgeKey}

theorem move_apply_of_ne (h : key ≠ item.1) (h' : key ≠ t.redirectKey item.1)
    : t.move content item key = content key := by
  rw [move]
  split
  · exact Function.update_of_ne h _ _
  · rw [Function.update_of_ne h', Function.update_of_ne h]

theorem move_apply_redirected (h : t.redirect item.1.source ≠ t.redirect item.1.target) :
    t.move content item (t.redirectKey item.1) = some item.2 := by
  rw [move, if_neg h, Function.update_self]

theorem move_eq_some {file : FileId} (h : t.move content item key = some file) :
    key = t.redirectKey item.1 ∧ file = item.2 ∧
        t.redirect item.1.source ≠ t.redirect item.1.target ∨
      key ≠ item.1 ∧ content key = some file := by
  rw [move] at h
  split at h
  · by_cases hkey : key = item.1
    · rw [hkey, Function.update_self] at h
      cases h
    · rw [Function.update_of_ne hkey] at h
      exact Or.inr ⟨hkey, h⟩
  · rename_i hloop
    by_cases hredirected : key = t.redirectKey item.1
    · rw [hredirected, Function.update_self] at h
      exact Or.inl ⟨hredirected, (Option.some.inj h).symm, hloop⟩
    · rw [Function.update_of_ne hredirected] at h
      by_cases hkey : key = item.1
      · rw [hkey, Function.update_self] at h
        cases h
      · rw [Function.update_of_ne hkey] at h
        exact Or.inr ⟨hkey, h⟩

theorem Moved.move (hsettled : t.Settled) (h : t.Moved edges content)
    (horigin : t.Origin edges item.1 item.2) (hdirty : ¬ t.Clean item.1) :
    t.Moved edges (t.move content item) := by
  have hstays : ∀ key file, key ≠ item.1 → content key = some file →
      ∃ file', t.move content item key = some file' := by
    intro key file hkey hfile
    by_cases hredirected : key = t.redirectKey item.1
    · rw [NodeRemapTable.move]
      split
      · exact ⟨file, by rw [Function.update_of_ne hkey]; exact hfile⟩
      · exact ⟨item.2, by rw [hredirected, Function.update_self]⟩
    · exact ⟨file, by rw [move_apply_of_ne hkey hredirected]; exact hfile⟩
  refine ⟨fun key file hlive => ?_, fun edge hedge hloop => ?_, fun edge hedge hclean => ?_⟩
  · cases move_eq_some hlive with
    | inl hmoved =>
      obtain ⟨hkey, hfile, hloop⟩ := hmoved
      obtain ⟨⟨edge, hedge, hedgeFile, himage, _⟩, hsource, htarget⟩ := horigin
      rw [hkey, hfile]
      refine ⟨⟨edge, hedge, hedgeFile, ?_, fun hbecome => ?_⟩, ?_, ?_⟩
      · rw [himage, redirectKey_redirectKey hsettled]
      · have hsame : t.redirect (t.redirect item.1.source) =
            t.redirect (t.redirect item.1.target) := hbecome
        rw [redirect_redirect hsettled, redirect_redirect hsettled] at hsame
        exact absurd hsame hloop
      · exact mem_mentioned_redirect hsource
      · exact mem_mentioned_redirect htarget
    | inr hold => exact h.origin key file hold.2
  · obtain ⟨key, file, hfile, himage⟩ := h.kept edge hedge hloop
    by_cases hkey : key = item.1
    · rw [hkey] at himage
      have hloop' : t.redirect item.1.source ≠ t.redirect item.1.target := by
        intro hsame
        have hsource := congrArg EdgeKey.source himage
        have htarget := congrArg EdgeKey.target himage
        exact hloop (hsource.symm.trans (hsame.trans htarget))
      exact ⟨_, item.2, move_apply_redirected hloop',
        (redirectKey_redirectKey hsettled _).trans himage⟩
    · obtain ⟨file', hfile'⟩ := hstays key file hkey hfile
      exact ⟨key, file', hfile', himage⟩
  · obtain ⟨file, hfile⟩ := h.native edge hedge hclean
    exact hstays _ file (fun heq => hdirty (heq ▸ hclean)) hfile

def moves (t : NodeRemapTable) (content : EdgeKey → Option FileId)
    (items : List (EdgeKey × FileId)) : EdgeKey → Option FileId :=
  items.foldl t.move content

theorem Moved.moves (hsettled : t.Settled) (h : t.Moved edges content)
    {items : List (EdgeKey × FileId)}
    (hitems : ∀ item ∈ items, t.Origin edges item.1 item.2 ∧ ¬ t.Clean item.1) :
    t.Moved edges (t.moves content items) := by
  induction items generalizing content with
  | nil => exact h
  | cons item items ih =>
    obtain ⟨horigin, hdirty⟩ := hitems item List.mem_cons_self
    exact ih (h.move hsettled horigin hdirty)
      fun later hlater => hitems later (List.mem_cons_of_mem item hlater)

theorem moves_eq_some (hsettled : t.Settled) {items : List (EdgeKey × FileId)} {file : FileId}
    (h : t.moves content items key = some file) :
    t.Clean key ∨ content key = some file ∧ key ∉ items.map Prod.fst := by
  induction items generalizing content with
  | nil => exact Or.inr ⟨h, List.not_mem_nil⟩
  | cons item items ih =>
    cases ih h with
    | inl hclean => exact Or.inl hclean
    | inr hold =>
      cases move_eq_some hold.1 with
      | inl hmoved =>
        rw [hmoved.1]
        exact Or.inl (clean_redirectKey hsettled item.1)
      | inr hstay =>
        refine Or.inr ⟨hstay.2, ?_⟩
        rw [List.map_cons, List.mem_cons, not_or]
        exact ⟨hstay.1, hold.2⟩

end Moves

section Visits
variable {b : BidirectionalEdgeStore} {content : EdgeKey → Option FileId}
  {edges : List PendingEdge} {loser winner : NodeId}

def incoming (loser : NodeId) (x : StoreEdgeRef) : EdgeKey × FileId :=
  (⟨x.source, loser, x.kind⟩, x.file)

def outgoing (loser : NodeId) (x : StoreEdgeRef) : EdgeKey × FileId :=
  (⟨loser, x.target, x.kind⟩, x.file)

theorem holds_retargetIncoming (hlookup : t.map.lookup loser = some winner)
    (h : Holds b content) (x : StoreEdgeRef) :
    Holds (t.retargetIncoming loser winner b x) (t.move content (incoming loser x)) := by
  have hremoved := h.removeEdge x.source loser x.kind x.file
  have hwinner : t.redirect loser = winner := redirect_of_lookup hlookup
  rw [retargetIncoming, move, incoming, redirectKey, hwinner]
  split
  · exact hremoved
  · exact hremoved.addEdgeWithSpans (t.redirect x.source) winner x.kind x.file x.spans

theorem holds_retargetOutgoing (hlookup : t.map.lookup loser = some winner)
    (h : Holds b content) (x : StoreEdgeRef) :
    Holds (t.retargetOutgoing loser winner b x) (t.move content (outgoing loser x)) := by
  have hremoved := h.removeEdge loser x.target x.kind x.file
  have hwinner : t.redirect loser = winner := redirect_of_lookup hlookup
  rw [retargetOutgoing, move, outgoing, redirectKey, hwinner]
  by_cases hloop : t.redirect x.target = winner
  · rw [if_pos hloop, if_pos hloop.symm]
    exact hremoved
  · rw [if_neg hloop, if_neg (Ne.symm hloop)]
    exact hremoved.addEdgeWithSpans winner (t.redirect x.target) x.kind x.file x.spans

theorem holds_foldl {g : BidirectionalEdgeStore → StoreEdgeRef → BidirectionalEdgeStore}
    {item : StoreEdgeRef → EdgeKey × FileId}
    (hstep : ∀ b content, Holds b content → ∀ x, Holds (g b x) (t.move content (item x)))
    (h : Holds b content) (xs : List StoreEdgeRef) :
    Holds (xs.foldl g b) (t.moves content (xs.map item)) := by
  induction xs generalizing b content with
  | nil => exact h
  | cons x xs ih => exact ih (hstep b content h x)

theorem content_of_mem_edgesTo (h : Holds b content) (hmoved : t.Moved edges content)
    (hone : OneGeneration (t.mentioned edges)) (hlookup : t.map.lookup loser = some winner)
    {x : StoreEdgeRef} (hx : x ∈ b.edgesTo loser) :
    content (incoming loser x).1 = some (incoming loser x).2 := by
  obtain ⟨e, he, heq⟩ := BidirectionalEdgeStore.mem_edgesTo.mp hx
  obtain ⟨hslot, hfile⟩ := EdgeStore.mem_edgesFrom_of_none h.reverse_csr he
  have hcontent : content e.key.turned = some e.file := by
    rw [← h.reverse_fileOf]
    exact hfile
  have horigin := hmoved.origin _ _ hcontent
  have hsame : e.source = loser :=
    hone _ horigin.target _ (mem_mentioned_loser hlookup) hslot
  rw [heq]
  have hkey : (⟨e.target, loser, e.kind⟩ : EdgeKey) = e.key.turned := by
    rw [← hsame]
    rfl
  rw [incoming, hkey]
  exact hcontent

theorem content_of_mem_edgesFrom (h : Holds b content) (hmoved : t.Moved edges content)
    (hone : OneGeneration (t.mentioned edges)) (hlookup : t.map.lookup loser = some winner)
    {x : StoreEdgeRef} (hx : x ∈ b.edgesFrom loser) :
    content (outgoing loser x).1 = some (outgoing loser x).2 := by
  obtain ⟨hslot, hfile⟩ := EdgeStore.mem_edgesFrom_of_none h.forward_csr hx
  rw [h.forward_fileOf] at hfile
  have horigin := hmoved.origin _ _ hfile
  have hsame : x.source = loser :=
    hone _ horigin.source _ (mem_mentioned_loser hlookup) hslot
  have hkey : (⟨loser, x.target, x.kind⟩ : EdgeKey) = x.key := by
    rw [← hsame]
    rfl
  rw [outgoing, hkey]
  exact hfile

theorem mem_incoming (h : Holds b content) {key : EdgeKey} {file : FileId}
    (hcontent : content key = some file) (htarget : key.target = loser) :
    key ∈ ((b.edgesTo loser).map (incoming loser)).map Prod.fst := by
  rw [← h.reverse_fileOf] at hcontent
  obtain ⟨e, he, hkey, _⟩ := EdgeStore.exists_mem_edgesFrom h.reverse_csr hcontent
    (congrArg NodeId.index htarget)
  rw [List.map_map]
  refine List.mem_map.mpr ⟨{ e with source := e.target, target := loser },
    BidirectionalEdgeStore.mem_edgesTo.mpr ⟨e, he, rfl⟩, ?_⟩
  have hback : key = e.key.turned := (congrArg EdgeKey.turned hkey).symm
  rw [hback] at htarget ⊢
  rw [Function.comp_apply, incoming, ← htarget]
  rfl

theorem mem_outgoing (h : Holds b content) {key : EdgeKey} {file : FileId}
    (hcontent : content key = some file) (hsource : key.source = loser) :
    key ∈ ((b.edgesFrom loser).map (outgoing loser)).map Prod.fst := by
  rw [← h.forward_fileOf] at hcontent
  obtain ⟨x, hx, hkey, _⟩ := EdgeStore.exists_mem_edgesFrom h.forward_csr hcontent
    (congrArg NodeId.index hsource)
  rw [List.map_map]
  refine List.mem_map.mpr ⟨x, hx, ?_⟩
  rw [Function.comp_apply, outgoing, ← hsource, ← hkey]
  rfl

theorem exists_visitLoser (hsettled : t.Settled) (hone : OneGeneration (t.mentioned edges))
    (hlookup : t.map.lookup loser = some winner) (h : Holds b content)
    (hmoved : t.Moved edges content) :
    ∃ content', Holds (t.visitLoser b ⟨loser, winner⟩) content' ∧ t.Moved edges content' ∧
      ∀ key file, content' key = some file →
        t.Clean key ∨ content key = some file ∧ key.source ≠ loser ∧ key.target ≠ loser := by
  have hloser : loser ∈ t.map := AList.lookup_isSome.mp (by rw [hlookup]; rfl)
  have hin := holds_foldl (fun b content => holds_retargetIncoming hlookup) h (b.edgesTo loser)
  have hmovedIn : t.Moved edges (t.moves content ((b.edgesTo loser).map (incoming loser))) := by
    refine hmoved.moves hsettled fun item hitem => ?_
    obtain ⟨x, hx, heq⟩ := List.mem_map.mp hitem
    rw [← heq]
    exact ⟨hmoved.origin _ _ (content_of_mem_edgesTo h hmoved hone hlookup hx),
      fun hclean => hclean.2 hloser⟩
  have hout := holds_foldl (fun b content => holds_retargetOutgoing hlookup) hin
    (((b.edgesTo loser).foldl (t.retargetIncoming loser winner) b).edgesFrom loser)
  refine ⟨_, hout, hmovedIn.moves hsettled ?_, fun key file hlive => ?_⟩
  · intro item hitem
    obtain ⟨x, hx, heq⟩ := List.mem_map.mp hitem
    rw [← heq]
    exact ⟨hmovedIn.origin _ _ (content_of_mem_edgesFrom hin hmovedIn hone hlookup hx),
      fun hclean => hclean.1 hloser⟩
  · cases moves_eq_some hsettled hlive with
    | inl hclean => exact Or.inl hclean
    | inr hafterIn =>
      cases moves_eq_some hsettled hafterIn.1 with
      | inl hclean => exact Or.inl hclean
      | inr hbefore =>
        refine Or.inr ⟨hbefore.1, fun hsource => ?_, fun htarget => ?_⟩
        · exact hafterIn.2 (mem_outgoing hin hafterIn.1 hsource)
        · exact hbefore.2 (mem_incoming h hbefore.1 htarget)

theorem exists_visitLosers (hsettled : t.Settled) (hone : OneGeneration (t.mentioned edges))
    {entries : List (Sigma fun _ : NodeId => NodeId)}
    (hentries : ∀ entry ∈ entries, t.map.lookup entry.1 = some entry.2) (h : Holds b content)
    (hmoved : t.Moved edges content) :
    ∃ content', Holds (entries.foldl t.visitLoser b) content' ∧ t.Moved edges content' ∧
      ∀ key file, content' key = some file → t.Clean key ∨ content key = some file ∧
        ∀ entry ∈ entries, key.source ≠ entry.1 ∧ key.target ≠ entry.1 := by
  induction entries generalizing b content with
  | nil => exact ⟨content, h, hmoved, fun _ _ hlive => Or.inr ⟨hlive, fun _ hin => by cases hin⟩⟩
  | cons entry entries ih =>
    obtain ⟨next, hnext, hmovedNext, hcleared⟩ := exists_visitLoser hsettled hone
      (hentries entry List.mem_cons_self) h hmoved
    obtain ⟨content', hholds, hmoved', hrest⟩ := ih
      (fun later hlater => hentries later (List.mem_cons_of_mem entry hlater)) hnext hmovedNext
    refine ⟨content', hholds, hmoved', fun key file hlive => ?_⟩
    cases hrest key file hlive with
    | inl hclean => exact Or.inl hclean
    | inr hlater =>
      cases hcleared key file hlater.1 with
      | inl hclean => exact Or.inl hclean
      | inr hnow => exact Or.inr ⟨hnow.1, List.forall_mem_cons.mpr ⟨hnow.2, hlater.2⟩⟩

end Visits

section Publishing
variable {edges : List PendingEdge} {b : BidirectionalEdgeStore}

theorem redirect_of_isEmpty (h : t.isEmpty = true) (node : NodeId) : t.redirect node = node := by
  refine redirect_of_notMem fun hmem => ?_
  have hkeys : node ∈ t.map.entries.map Sigma.fst := hmem
  rw [List.isEmpty_iff.mp h] at hkeys
  cases hkeys

theorem applyToEdges_flatten (t : NodeRemapTable) (edgeVecs : List (List PendingEdge)) :
    (t.applyToEdges edgeVecs).flatten = edgeVecs.flatten.map t.applyToEdge := by
  rw [applyToEdges]
  split
  · rename_i hempty
    have hid : ∀ edge ∈ edgeVecs.flatten, t.applyToEdge edge = edge := by
      intro edge _
      rw [applyToEdge, redirect_of_isEmpty hempty, redirect_of_isEmpty hempty]
    exact ((List.map_congr_left hid).trans (List.map_id edgeVecs.flatten)).symm
  · rw [List.map_flatten]

theorem applyToCommittedEdges_eq (t : NodeRemapTable) (b : BidirectionalEdgeStore) :
    t.applyToCommittedEdges b = t.map.entries.foldl t.visitLoser b := by
  rw [applyToCommittedEdges]
  split
  · rename_i hempty
    rw [List.isEmpty_iff.mp hempty]
    rfl
  · rfl

theorem edgeKey_applyToEdge (t : NodeRemapTable) (edge : PendingEdge) :
    (t.applyToEdge edge).edgeKey = t.redirectKey edge.edgeKey := rfl

theorem moved_of_filled (h : Filled b edges) : t.Moved edges b.forward.fileOf := by
  refine ⟨fun key file hlive => ?_, fun edge hedge _ => ?_, fun edge hedge _ => ?_⟩
  · obtain ⟨edge, hedge, hkey, hfile⟩ := h.exists_edge hlive
    have hends : ∀ node ∈ [edge.source, edge.target], node ∈ t.mentioned edges :=
      fun node hnode => List.mem_append_right _ (List.mem_flatMap.mpr ⟨edge, hedge, hnode⟩)
    refine ⟨⟨edge, hedge, hfile, by rw [hkey], fun _ => hkey⟩, ?_, ?_⟩
    · rw [← hkey]
      exact hends _ List.mem_cons_self
    · rw [← hkey]
      exact hends _ (List.mem_cons_of_mem _ List.mem_cons_self)
  · obtain ⟨file, hfile⟩ := h.exists_file hedge
    exact ⟨edge.edgeKey, file, hfile, rfl⟩
  · exact h.exists_file hedge

theorem exists_applyToCommittedEdges (hsettled : t.Settled)
    (hone : OneGeneration (t.mentioned edges)) (h : Filled b edges) :
    ∃ content, Holds (t.applyToCommittedEdges b) content ∧ t.Moved edges content ∧
      ∀ key file, content key = some file → t.Clean key := by
  obtain ⟨content, hholds, hmoved, hrest⟩ := exists_visitLosers hsettled hone
    (fun entry hentry => AList.mem_lookup_iff.mpr hentry) h.holds (moved_of_filled h)
  rw [← applyToCommittedEdges_eq] at hholds
  refine ⟨content, hholds, hmoved, fun key file hlive => ?_⟩
  cases hrest key file hlive with
  | inl hclean => exact hclean
  | inr hunvisited =>
    have hnever : ∀ node, (∀ entry ∈ t.map.entries, node ≠ entry.1) → node ∉ t.map := by
      intro node hnode hmem
      obtain ⟨entry, hentry, heq⟩ := List.mem_map.mp hmem
      exact hnode entry hentry heq.symm
    exact ⟨hnever _ fun entry hentry => (hunvisited.2 entry hentry).1,
      hnever _ fun entry hentry => (hunvisited.2 entry hentry).2⟩

theorem settled_of_entries (h : ∀ entry ∈ t.map.entries, entry.2 ∉ t.map) : t.Settled :=
  fun loser winner hlookup => h ⟨loser, winner⟩ (AList.mem_lookup_iff.mp hlookup)

theorem Moved.exists_file_iff {content : EdgeKey → Option FileId} (hsettled : t.Settled)
    (h : t.Moved edges content) (hclean : ∀ key file, content key = some file → t.Clean key)
    (key : EdgeKey) :
    (∃ file, content key = some file) ↔
      (∃ edge ∈ edges, t.redirectKey edge.edgeKey = key) ∧
        (key.source = key.target → ∃ edge ∈ edges, edge.edgeKey = key) := by
  constructor
  · intro hlive
    obtain ⟨file, hfile⟩ := hlive
    obtain ⟨edge, hedge, _, himage, hloop⟩ := (h.origin key file hfile).edge
    rw [redirectKey_of_clean (hclean key file hfile)] at himage
    exact ⟨⟨edge, hedge, himage⟩, fun hsame => ⟨edge, hedge, hloop (congrArg t.redirect hsame)⟩⟩
  · intro himage
    obtain ⟨⟨edge, hedge, hkey⟩, hnative⟩ := himage
    have hkeyClean : t.Clean key := hkey ▸ clean_redirectKey hsettled edge.edgeKey
    by_cases hsame : key.source = key.target
    · obtain ⟨loop, hloop, hloopKey⟩ := hnative hsame
      have hkept := h.native loop hloop (by rw [hloopKey]; exact hkeyClean)
      rw [hloopKey] at hkept
      exact hkept
    · have hdistinct : t.redirect edge.source ≠ t.redirect edge.target := by
        intro heq
        rw [← hkey] at hsame
        exact hsame heq
      obtain ⟨key', file, hfile, himage⟩ := h.kept edge hedge hdistinct
      rw [redirectKey_of_clean (hclean key' file hfile)] at himage
      exact ⟨file, by rw [← hkey, ← himage]; exact hfile⟩

/-- Moving the committed edges publishes what redirecting them before the insertion does, but for
the loops that a redirection makes; where one file decides, it publishes the same files. -/
theorem applyToCommittedEdges_publishes (t : NodeRemapTable) (hsettled : t.Settled)
    (edgeVecs : List (List PendingEdge)) (hcount : edgeVecs.flatten.length ≤ u64Max)
    (hone : OneGeneration (t.mentioned edgeVecs.flatten)) :
    ∃ pending committed seq seq',
      phase4dBulkInsertEdges .new (t.applyToEdges edgeVecs) = some (pending, seq) ∧
      phase4dBulkInsertEdges .new edgeVecs = some (committed, seq') ∧
      (∀ key, (∃ file, Live (t.applyToCommittedEdges committed) key file) ↔
        (∃ file, Live pending key file) ∧
          (key.source = key.target → ∃ edge ∈ edgeVecs.flatten, edge.edgeKey = key)) ∧
      (∀ key file, Live pending key file ∨ Live (t.applyToCommittedEdges committed) key file →
        key.source ∉ t.map ∧ key.target ∉ t.map) ∧
      ∀ key file, (∀ edge ∈ edgeVecs.flatten, t.redirectKey edge.edgeKey = key →
          edge.file = file) → ∀ file',
        (Live pending key file' → file' = file) ∧
          (Live (t.applyToCommittedEdges committed) key file' → file' = file) := by
  have hflatten := t.applyToEdges_flatten edgeVecs
  obtain ⟨pending, seq, hpending, hfilled⟩ := phase4dBulkInsertEdges_new (t.applyToEdges edgeVecs)
    (by rw [hflatten, List.length_map]; exact hcount)
  obtain ⟨committed, seq', hcommitted, hfilled'⟩ := phase4dBulkInsertEdges_new edgeVecs hcount
  obtain ⟨content, hholds, hmoved, hclean⟩ :=
    exists_applyToCommittedEdges hsettled hone hfilled'
  rw [hflatten] at hfilled
  have hpendingEdge : ∀ key file, Live pending key file →
      ∃ edge ∈ edgeVecs.flatten, t.redirectKey edge.edgeKey = key ∧ edge.file = file := by
    intro key file hlive
    obtain ⟨image, himage, hkey, hfile⟩ :=
      hfilled.exists_edge ((hfilled.holds.live_iff key file).mp hlive)
    obtain ⟨edge, hedge, heq⟩ := List.mem_map.mp himage
    rw [← heq] at hkey hfile
    exact ⟨edge, hedge, hkey, hfile⟩
  refine ⟨pending, committed, seq, seq', hpending, hcommitted, fun key => ?_,
    fun key file hlive => ?_, fun key file hfiles file' => ⟨fun hlive => ?_, fun hlive => ?_⟩⟩
  · have hpendingLive : (∃ file, Live pending key file) ↔
        ∃ edge ∈ edgeVecs.flatten, t.redirectKey edge.edgeKey = key := by
      constructor
      · intro hlive
        obtain ⟨file, hfile⟩ := hlive
        obtain ⟨edge, hedge, hkey, _⟩ := hpendingEdge key file hfile
        exact ⟨edge, hedge, hkey⟩
      · intro himage
        obtain ⟨edge, hedge, hkey⟩ := himage
        obtain ⟨file, hfile⟩ := hfilled.exists_file (List.mem_map_of_mem hedge)
        rw [edgeKey_applyToEdge, hkey] at hfile
        exact ⟨file, (hfilled.holds.live_iff key file).mpr hfile⟩
    rw [hpendingLive, ← hmoved.exists_file_iff hsettled hclean key]
    exact exists_congr fun file => hholds.live_iff key file
  · cases hlive with
    | inl hlive =>
      obtain ⟨edge, _, hkey, _⟩ := hpendingEdge key file hlive
      rw [← hkey]
      exact clean_redirectKey hsettled edge.edgeKey
    | inr hlive => exact hclean key file ((hholds.live_iff key file).mp hlive)
  · obtain ⟨edge, hedge, hkey, hfile⟩ := hpendingEdge key file' hlive
    exact hfile.symm.trans (hfiles edge hedge hkey)
  · have hcontent := (hholds.live_iff key file').mp hlive
    obtain ⟨edge, hedge, hfile, himage, _⟩ := (hmoved.origin key file' hcontent).edge
    rw [redirectKey_of_clean (hclean key file' hcontent)] at himage
    exact hfile.symm.trans (hfiles edge hedge himage)

end Publishing

section Instances

/-- The slot `0` loses to the slot `1`. -/
def oneLoser : NodeRemapTable :=
  ⟨⟨[⟨⟨0, 1⟩, ⟨1, 1⟩⟩], List.nodupKeys_singleton _⟩⟩

def callEdge (source target : NodeId) (file : FileId) : PendingEdge :=
  ⟨source, target, .calls 0 false .direct, file, []⟩

def publishedPending (t : NodeRemapTable) (edges : List PendingEdge) (edge : PendingEdge) : Bool :=
  (phase4dBulkInsertEdges .new (t.applyToEdges [edges])).any fun r =>
    Live r.1 edge.edgeKey edge.file

def publishedCommitted (t : NodeRemapTable) (edges : List PendingEdge) (edge : PendingEdge) :
    Bool :=
  (phase4dBulkInsertEdges .new [edges]).any fun r =>
    Live (t.applyToCommittedEdges r.1) edge.edgeKey edge.file

/-- A call of the winner by its loser is a call of the winner by itself while it is pending, and
nothing when it is committed. Of two files of one edge either can win. A stale node of a loser's
slot loses its calls to the winner. -/
theorem committed_differs_from_pending :
    oneLoser.Settled ∧
      (oneLoser.publishedPending [callEdge ⟨0, 1⟩ ⟨1, 1⟩ 1] (callEdge ⟨1, 1⟩ ⟨1, 1⟩ 1) = true ∧
        oneLoser.publishedCommitted [callEdge ⟨0, 1⟩ ⟨1, 1⟩ 1] (callEdge ⟨1, 1⟩ ⟨1, 1⟩ 1) =
          false) ∧
      (oneLoser.publishedPending [callEdge ⟨0, 1⟩ ⟨2, 1⟩ 1, callEdge ⟨1, 1⟩ ⟨2, 1⟩ 2]
          (callEdge ⟨1, 1⟩ ⟨2, 1⟩ 2) = true ∧
        oneLoser.publishedCommitted [callEdge ⟨0, 1⟩ ⟨2, 1⟩ 1, callEdge ⟨1, 1⟩ ⟨2, 1⟩ 2]
          (callEdge ⟨1, 1⟩ ⟨2, 1⟩ 2) = false) ∧
      (oneLoser.publishedPending [callEdge ⟨0, 2⟩ ⟨2, 1⟩ 1] (callEdge ⟨1, 1⟩ ⟨2, 1⟩ 1) = false ∧
        oneLoser.publishedCommitted [callEdge ⟨0, 2⟩ ⟨2, 1⟩ 1] (callEdge ⟨1, 1⟩ ⟨2, 1⟩ 1) =
          true) := by
  refine ⟨settled_of_entries (by decide), ?_, ?_, ?_⟩ <;> decide +kernel

/-- A call of the loser from outside is published at the winner both ways. -/
theorem applyToCommittedEdges_publishes_oneLoser :
    ∃ pending committed seq seq',
      phase4dBulkInsertEdges .new (oneLoser.applyToEdges [[callEdge ⟨2, 1⟩ ⟨0, 1⟩ 1]]) =
        some (pending, seq) ∧
      phase4dBulkInsertEdges .new [[callEdge ⟨2, 1⟩ ⟨0, 1⟩ 1]] = some (committed, seq') ∧
      ∀ key, (∃ file, Live (oneLoser.applyToCommittedEdges committed) key file) ↔
        (∃ file, Live pending key file) ∧
          (key.source = key.target → ∃ edge ∈ [callEdge ⟨2, 1⟩ ⟨0, 1⟩ 1], edge.edgeKey = key) := by
  obtain ⟨pending, committed, seq, seq', hpending, hcommitted, hkeys, _⟩ :=
    oneLoser.applyToCommittedEdges_publishes (settled_of_entries (by decide))
      [[callEdge ⟨2, 1⟩ ⟨0, 1⟩ 1]] (by decide) (by simp only [OneGeneration]; decide)
  exact ⟨pending, committed, seq, seq', hpending, hcommitted, hkeys⟩

end Instances

end NodeRemapTable
end Sqry
