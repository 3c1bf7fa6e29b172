import Mathlib.Data.Set.Card
import Sqry.Query.SubqueryTransparent

/-!
Joins: the pairs of a node that satisfies the left expression and one that satisfies the right,
with an edge of the join's kind between them. The sets and the maps the loop walks over are
hash tables, met in any order.
-/

namespace Sqry

/-- The orders in which the hash tables of a run are met: a set of nodes, and the edges that
are read for a node. -/
structure HashOrders where
  nodes : List NodeId → List NodeId
  edges : NodeId → List StoreEdgeRef → List StoreEdgeRef
  nodes_perm : ∀ found, (nodes found).Perm found
  edges_perm : ∀ node found, (edges node found).Perm found

namespace HashOrders

def listed : HashOrders := ⟨id, fun _ => id, fun _ => .rfl, fun _ _ => .rfl⟩

end HashOrders

structure JoinEvalResult where
  pairs : List (NodeId × NodeId)
  truncated : Bool
  deriving DecidableEq, Repr

def DEFAULT_JOIN_RESULT_CAP : Nat := 10000

def JoinEdgeKind.edgeMatchesJoinKind (join : JoinEdgeKind) (kind : EdgeKind) : Bool :=
  match join, kind with
  | .calls, .calls .. => true
  | .imports, .imports .. => true
  | .inherits, .inherits => true
  | .implements, .implements => true
  | _, _ => false

namespace GraphEvalContext

section Loop
variable (join : JoinEdgeKind) (cap : Nat) (rhsMatches : List NodeId)

def joinsTo (edge : StoreEdgeRef) : Bool :=
  join.edgeMatchesJoinKind edge.kind && rhsMatches.contains edge.target

def joinEdges (lhs : NodeId) :
    List StoreEdgeRef → List (NodeId × NodeId) → List (NodeId × NodeId) × Bool
  | [], pairs => (pairs, false)
  | edge :: edges, pairs =>
    if joinsTo join rhsMatches edge then
      let pairs := pairs ++ [(lhs, edge.target)]
      if pairs.length ≥ cap then (pairs, true) else joinEdges lhs edges pairs
    else joinEdges lhs edges pairs

def joinNodes (edgesFrom : NodeId → List StoreEdgeRef) :
    List NodeId → List (NodeId × NodeId) → JoinEvalResult
  | [], pairs => ⟨pairs, false⟩
  | lhs :: lhsMatches, pairs =>
    match joinEdges join cap rhsMatches lhs (edgesFrom lhs) pairs with
    | (pairs, true) => ⟨pairs, true⟩
    | (pairs, false) => joinNodes edgesFrom lhsMatches pairs

end Loop

section Join
variable (ctx : GraphEvalContext) (orders : HashOrders)

def joinedEdgesFrom (node : NodeId) : List StoreEdgeRef :=
  orders.edges node (ctx.graph.edges.edgesFrom node)

def evaluateJoin (left : Expr) (join : JoinEdgeKind) (right : Expr) (maxResults : Option Nat) :
    Except EvalError JoinEvalResult :=
  match ctx.evaluateSubquery left with
  | .error e => .error e
  | .ok lhsMatches =>
    match ctx.evaluateSubquery right with
    | .error e => .error e
    | .ok rhsMatches =>
      .ok (joinNodes join (maxResults.getD DEFAULT_JOIN_RESULT_CAP) rhsMatches
        (ctx.joinedEdgesFrom orders) (orders.nodes lhsMatches) [])

def Finds (expr : Expr) (node : NodeId) : Prop :=
  ∃ limit, ctx.exprDepth = .ok limit ∧ node ∈ ctx.allNodes ∧
    ctx.evaluateNode limit 0 node expr = .ok true

structure Joined (left : Expr) (join : JoinEdgeKind) (right : Expr) (pair : NodeId × NodeId) :
    Prop where
  left : ctx.Finds left pair.1
  right : ctx.Finds right pair.2
  edge : ∃ edge ∈ ctx.graph.edges.edgesFrom pair.1,
    edge.target = pair.2 ∧ join.edgeMatchesJoinKind edge.kind = true

/-- The result has the joined pairs, each once, up to the cap, and tells whether some are
missing. -/
structure JoinExact (left : Expr) (join : JoinEdgeKind) (right : Expr) (cap : Nat)
    (result : JoinEvalResult) : Prop where
  bounded : result.pairs.length ≤ cap
  sound : ∀ pair ∈ result.pairs, ctx.Joined left join right pair
  distinct : result.pairs.Nodup
  complete : result.truncated = false → ∀ pair, ctx.Joined left join right pair →
    pair ∈ result.pairs
  truthful : result.truncated = true ↔
    result.pairs.length < {pair | ctx.Joined left join right pair}.ncard

def joiningEnds (left : Expr) (join : JoinEdgeKind) (right : Expr) : List (NodeId × NodeId) :=
  match ctx.evaluateSubquery left, ctx.evaluateSubquery right with
  | .ok lhsMatches, .ok rhsMatches =>
    (orders.nodes lhsMatches).flatMap fun lhs =>
      ((ctx.joinedEdgesFrom orders lhs).filter (joinsTo join rhsMatches)).map
        fun edge => (lhs, edge.target)
  | _, _ => []

end Join

/-- Nothing joins, or there is room for a pair, the edges up to the cap join different pairs, and
the cap is not reached unless it leaves a pair out. -/
def FitsCap (cap : Nat) (ends : List (NodeId × NodeId)) : Prop :=
  ends = [] ∨ 0 < cap ∧ (ends.take cap).Nodup ∧ (cap ≤ ends.length → cap < ends.dedup.length)

section Loops
variable {join : JoinEdgeKind} {cap : Nat} {rhsMatches : List NodeId}

def pushUpTo (cap : Nat) : List (NodeId × NodeId) → List (NodeId × NodeId) → JoinEvalResult
  | [], pairs => ⟨pairs, false⟩
  | pair :: ends, pairs =>
    if (pairs ++ [pair]).length ≥ cap then ⟨pairs ++ [pair], true⟩
    else pushUpTo cap ends (pairs ++ [pair])

theorem pushUpTo_append (first second pairs : List (NodeId × NodeId)) :
    pushUpTo cap (first ++ second) pairs =
      if (pushUpTo cap first pairs).truncated then pushUpTo cap first pairs
      else pushUpTo cap second (pushUpTo cap first pairs).pairs := by
  induction first generalizing pairs with
  | nil => rfl
  | cons pair first ih =>
    rw [List.cons_append, pushUpTo, pushUpTo]
    by_cases hcap : (pairs ++ [pair]).length ≥ cap
    · rw [if_pos hcap, if_pos hcap]
      rfl
    · rw [if_neg hcap, if_neg hcap]
      exact ih (pairs ++ [pair])

theorem joinEdges_eq (lhs : NodeId) (edges : List StoreEdgeRef) (pairs : List (NodeId × NodeId)) :
    joinEdges join cap rhsMatches lhs edges pairs =
      let result := pushUpTo cap ((edges.filter (joinsTo join rhsMatches)).map
        fun edge => (lhs, edge.target)) pairs
      (result.pairs, result.truncated) := by
  induction edges generalizing pairs with
  | nil => rfl
  | cons edge edges ih =>
    rw [joinEdges, List.filter_cons]
    by_cases hjoins : joinsTo join rhsMatches edge = true
    · rw [if_pos hjoins, if_pos hjoins, List.map_cons, pushUpTo]
      by_cases hcap : (pairs ++ [(lhs, edge.target)]).length ≥ cap
      · simp only [if_pos hcap]
      · simp only [if_neg hcap]
        exact ih (pairs ++ [(lhs, edge.target)])
    · rw [if_neg hjoins, if_neg hjoins]
      exact ih pairs

theorem joinNodes_eq (edgesFrom : NodeId → List StoreEdgeRef) (lhsMatches : List NodeId)
    (pairs : List (NodeId × NodeId)) :
    joinNodes join cap rhsMatches edgesFrom lhsMatches pairs =
      pushUpTo cap (lhsMatches.flatMap fun lhs =>
        ((edgesFrom lhs).filter (joinsTo join rhsMatches)).map fun edge => (lhs, edge.target))
        pairs := by
  induction lhsMatches generalizing pairs with
  | nil => rfl
  | cons lhs lhsMatches ih =>
    rw [joinNodes, joinEdges_eq, List.flatMap_cons, pushUpTo_append]
    cases hrow : pushUpTo cap (((edgesFrom lhs).filter (joinsTo join rhsMatches)).map
      fun edge => (lhs, edge.target)) pairs with
    | mk found truncated =>
      cases truncated with
      | true => rfl
      | false => exact ih found

theorem pushUpTo_of_lt {ends pairs : List (NodeId × NodeId)}
    (h : pairs.length + ends.length < cap) : pushUpTo cap ends pairs = ⟨pairs ++ ends, false⟩ := by
  induction ends generalizing pairs with
  | nil => rw [pushUpTo, List.append_nil]
  | cons pair ends ih =>
    rw [List.length_cons] at h
    have hlen : (pairs ++ [pair]).length = pairs.length + 1 := by simp
    have hroom : ¬ (pairs ++ [pair]).length ≥ cap := by omega
    rw [pushUpTo, if_neg hroom, ih (by omega), List.append_assoc]
    rfl

theorem pushUpTo_of_le {ends pairs : List (NodeId × NodeId)} (hroom : pairs.length < cap)
    (h : cap ≤ pairs.length + ends.length) :
    pushUpTo cap ends pairs = ⟨(pairs ++ ends).take cap, true⟩ := by
  induction ends generalizing pairs with
  | nil =>
    rw [List.length_nil] at h
    omega
  | cons pair ends ih =>
    rw [List.length_cons] at h
    have hlen : (pairs ++ [pair]).length = pairs.length + 1 := by simp
    have hsplit : pairs ++ pair :: ends = (pairs ++ [pair]) ++ ends := by simp
    rw [pushUpTo, hsplit]
    by_cases hcap : (pairs ++ [pair]).length ≥ cap
    · have heq : cap = (pairs ++ [pair]).length := by omega
      rw [if_pos hcap, heq, List.take_left']
      rfl
    · rw [if_neg hcap]
      exact ih (by omega) (by omega)

theorem pushUpTo_zero (pair : NodeId × NodeId) (ends : List (NodeId × NodeId)) :
    pushUpTo 0 (pair :: ends) [] = ⟨[pair], true⟩ := rfl

end Loops

section Exact
variable {ctx : GraphEvalContext} {orders : HashOrders} {left right : Expr} {join : JoinEdgeKind}

theorem mem_evaluateSubquery {expr : Expr} {found : List NodeId}
    (h : ctx.evaluateSubquery expr = .ok found) {node : NodeId} :
    node ∈ found ↔ ctx.Finds expr node := by
  cases hdepth : ctx.exprDepth with
  | error e =>
    simp only [evaluateSubquery, hdepth] at h
    cases h
  | ok limit =>
    rw [evaluateSubquery_eq hdepth] at h
    have hright : ∀ (j : Nat) node b, ctx.evaluateNode limit 0 node expr = .ok b →
        decide (ctx.evaluateNode limit 0 node expr = .ok true) = b := by
      intro j node b hnode
      rw [hnode]
      cases b with
      | false => rfl
      | true => rfl
    obtain ⟨hfilter, _⟩ := scanFrom_eq_ok hright h
    rw [hfilter, List.mem_filter, decide_eq_true_eq]
    constructor
    · intro hmem
      exact ⟨limit, hdepth, hmem.1, hmem.2⟩
    · intro hfinds
      obtain ⟨limit', hdepth', hmem, hnode⟩ := hfinds
      rw [hdepth] at hdepth'
      cases hdepth'
      exact ⟨hmem, hnode⟩

theorem mem_joiningEnds {lhsMatches rhsMatches : List NodeId}
    (hleft : ctx.evaluateSubquery left = .ok lhsMatches)
    (hright : ctx.evaluateSubquery right = .ok rhsMatches) {pair : NodeId × NodeId} :
    pair ∈ ctx.joiningEnds orders left join right ↔ ctx.Joined left join right pair := by
  rw [joiningEnds, hleft, hright]
  simp only [List.mem_flatMap, List.mem_map, List.mem_filter, joinsTo, Bool.and_eq_true,
    List.contains_iff_mem, (orders.nodes_perm lhsMatches).mem_iff, joinedEdgesFrom,
    (orders.edges_perm _ _).mem_iff]
  constructor
  · intro h
    obtain ⟨lhs, hlhs, edge, ⟨hedge, hkind, htarget⟩, heq⟩ := h
    cases heq
    exact ⟨(mem_evaluateSubquery hleft).mp hlhs, (mem_evaluateSubquery hright).mp htarget,
      edge, hedge, rfl, hkind⟩
  · intro h
    obtain ⟨edge, hedge, htarget, hkind⟩ := h.edge
    refine ⟨pair.1, (mem_evaluateSubquery hleft).mpr h.left, edge, ⟨hedge, hkind, ?_⟩, ?_⟩
    · rw [htarget]
      exact (mem_evaluateSubquery hright).mpr h.right
    · rw [htarget]

variable {ends : List (NodeId × NodeId)} {cap : Nat}

theorem ncard_joined (hends : ∀ pair, pair ∈ ends ↔ ctx.Joined left join right pair) :
    {pair | ctx.Joined left join right pair}.ncard = ends.dedup.length := by
  have hset : {pair | ctx.Joined left join right pair} = ↑ends.toFinset := by
    ext pair
    rw [Set.mem_ofPred_eq, Finset.mem_coe, List.mem_toFinset, hends]
  rw [hset, Set.ncard_coe_finset, List.card_toFinset]

theorem joinExact_of_lt (hends : ∀ pair, pair ∈ ends ↔ ctx.Joined left join right pair)
    (hlen : ends.length < cap) :
    ctx.JoinExact left join right cap ⟨ends, false⟩ ↔ ends.Nodup := by
  constructor
  · intro h
    exact h.distinct
  · intro hnodup
    refine ⟨Nat.le_of_lt hlen, fun pair hpair => (hends pair).mp hpair, hnodup,
      fun _ pair hpair => (hends pair).mpr hpair, ?_⟩
    rw [ncard_joined hends, hnodup.dedup]
    simp

theorem joinExact_of_le (hends : ∀ pair, pair ∈ ends ↔ ctx.Joined left join right pair)
    (hlen : cap ≤ ends.length) :
    ctx.JoinExact left join right cap ⟨ends.take cap, true⟩ ↔
      (ends.take cap).Nodup ∧ cap < ends.dedup.length := by
  have htake : (ends.take cap).length = cap := by
    rw [List.length_take]
    omega
  constructor
  · intro h
    have hmore := h.truthful.mp rfl
    rw [ncard_joined hends] at hmore
    exact ⟨h.distinct, lt_of_eq_of_lt htake.symm hmore⟩
  · intro ⟨hnodup, hmore⟩
    refine ⟨Nat.le_of_eq htake, fun pair hpair => (hends pair).mp (List.mem_of_mem_take hpair),
      hnodup, fun hfalse => ?_, ?_⟩
    · cases hfalse
    · rw [ncard_joined hends]
      exact ⟨fun _ => lt_of_eq_of_lt htake hmore, fun _ => rfl⟩

theorem fitsCap_of_lt (hlen : ends.length < cap) :
    FitsCap cap ends ↔ ends.Nodup := by
  have htake : ends.take cap = ends := List.take_of_length_le (Nat.le_of_lt hlen)
  constructor
  · intro h
    cases h with
    | inl hnil =>
      rw [hnil]
      exact List.nodup_nil
    | inr hfits =>
      rw [← htake]
      exact hfits.2.1
  · intro hnodup
    refine .inr ⟨by omega, ?_, fun hle => by omega⟩
    rw [htake]
    exact hnodup

theorem fitsCap_of_le (hcap : 0 < cap) (hlen : cap ≤ ends.length) :
    FitsCap cap ends ↔ (ends.take cap).Nodup ∧ cap < ends.dedup.length := by
  constructor
  · intro h
    cases h with
    | inl hnil =>
      rw [hnil, List.length_nil] at hlen
      omega
    | inr hfits => exact ⟨hfits.2.1, hfits.2.2 hlen⟩
  · intro ⟨hnodup, hmore⟩
    exact .inr ⟨hcap, hnodup, fun _ => hmore⟩

/-- A join is exact just when the edges that join two nodes fit the cap. -/
theorem evaluateJoin_exact_iff {maxResults : Option Nat} {result : JoinEvalResult}
    (h : ctx.evaluateJoin orders left join right maxResults = .ok result) :
    ctx.JoinExact left join right (maxResults.getD DEFAULT_JOIN_RESULT_CAP) result ↔
      FitsCap (maxResults.getD DEFAULT_JOIN_RESULT_CAP)
        (ctx.joiningEnds orders left join right) := by
  cases hleft : ctx.evaluateSubquery left with
  | error e =>
    simp only [evaluateJoin, hleft] at h
    cases h
  | ok lhsMatches =>
    cases hright : ctx.evaluateSubquery right with
    | error e =>
      simp only [evaluateJoin, hleft, hright] at h
      cases h
    | ok rhsMatches =>
      have hends : ∀ pair, pair ∈ ctx.joiningEnds orders left join right ↔
          ctx.Joined left join right pair := fun pair => mem_joiningEnds hleft hright
      have hresult : pushUpTo (maxResults.getD DEFAULT_JOIN_RESULT_CAP)
          (ctx.joiningEnds orders left join right) [] = result := by
        simp only [evaluateJoin, hleft, hright, joinNodes_eq] at h
        simp only [joiningEnds, hleft, hright]
        exact Except.ok.inj h
      generalize maxResults.getD DEFAULT_JOIN_RESULT_CAP = cap at hresult ⊢
      generalize ctx.joiningEnds orders left join right = ends at hends hresult ⊢
      rw [← hresult]
      cases Nat.lt_or_ge ends.length cap with
      | inl hlt =>
        rw [pushUpTo_of_lt (by simpa using hlt), List.nil_append, joinExact_of_lt hends hlt,
          fitsCap_of_lt hlt]
      | inr hge =>
        cases Nat.eq_zero_or_pos cap with
        | inr hcap =>
          rw [pushUpTo_of_le hcap (by simpa using hge), List.nil_append,
            joinExact_of_le hends hge, fitsCap_of_le hcap hge]
        | inl hzero =>
          rw [hzero]
          cases ends with
          | nil =>
            refine ⟨fun _ => .inl rfl, fun _ => ?_⟩
            refine ⟨Nat.le_refl 0, fun pair hpair => (hends pair).mp hpair,
              List.nodup_nil, fun _ pair hpair => (hends pair).mpr hpair, ?_⟩
            rw [ncard_joined hends]
            exact ⟨fun hfalse => Bool.noConfusion hfalse, fun hlt => by cases hlt⟩
          | cons pair ends =>
            refine ⟨fun hexact => ?_, fun hfits => ?_⟩
            · exact absurd hexact.bounded (by simp [pushUpTo_zero])
            · cases hfits with
              | inl hnil => cases hnil
              | inr hpos => exact absurd hpos.1 (Nat.lt_irrefl 0)

theorem evaluateJoin_exact_oneCall :
    oneCall.JoinExact (ofKind "function") .calls (ofKind "function") DEFAULT_JOIN_RESULT_CAP
      ⟨[(⟨0, 1⟩, ⟨1, 1⟩)], false⟩ := by
  have hresult : oneCall.evaluateJoin .listed (ofKind "function") .calls (ofKind "function") none =
      .ok ⟨[(⟨0, 1⟩, ⟨1, 1⟩)], false⟩ := by decide
  have hends : oneCall.joiningEnds .listed (ofKind "function") .calls (ofKind "function") =
      [(⟨0, 1⟩, ⟨1, 1⟩)] := by decide
  refine (evaluateJoin_exact_iff hresult).mpr ?_
  rw [hends]
  exact (fitsCap_of_lt (by decide)).mpr (List.nodup_singleton _)

/-- With one pair and room for one, nothing is missing and the result is called truncated. -/
theorem full_join_called_truncated :
    ¬ ∀ (ctx : GraphEvalContext) (orders : HashOrders) (left : Expr) (join : JoinEdgeKind)
      (right : Expr) (maxResults : Option Nat) (result : JoinEvalResult),
      ctx.evaluateJoin orders left join right maxResults = .ok result →
        ctx.JoinExact left join right (maxResults.getD DEFAULT_JOIN_RESULT_CAP) result := by
  intro h
  have hresult : oneCall.evaluateJoin .listed (ofKind "function") .calls (ofKind "function")
      (some 1) = .ok ⟨[(⟨0, 1⟩, ⟨1, 1⟩)], true⟩ := by decide
  have hmore := (h oneCall .listed (ofKind "function") .calls (ofKind "function") (some 1) _
    hresult).truthful.mp rfl
  have hfound : oneCall.evaluateSubquery (ofKind "function") = .ok [⟨0, 1⟩, ⟨1, 1⟩] := by decide
  have hends : ∀ pair, pair ∈ oneCall.joiningEnds .listed (ofKind "function") .calls
      (ofKind "function") ↔ oneCall.Joined (ofKind "function") .calls (ofKind "function") pair :=
    fun pair => mem_joiningEnds hfound hfound
  rw [ncard_joined hends] at hmore
  revert hmore
  decide

end Exact

end GraphEvalContext
end Sqry
