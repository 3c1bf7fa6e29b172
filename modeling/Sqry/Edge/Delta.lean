import Sqry.Edge.Kind
import Sqry.Lib.Buckets

/-!
The delta buffer: edge operations with sequence numbers, kept by source file. The order
in which a hash map lists its files is the order of the entries here.
-/

namespace Sqry

inductive DeltaOp where
  | add | remove
  deriving DecidableEq, Repr

structure Position where
  line : Nat
  column : Nat
  deriving DecidableEq, Repr

structure Span where
  start : Position
  stop : Position
  deriving DecidableEq, Repr

abbrev FileId := Nat

def FileId.INVALID : FileId := u32Max

structure EdgeKey where
  source : NodeId
  target : NodeId
  kind : EdgeKind
  deriving DecidableEq, Repr

structure DeltaEdge where
  source : NodeId
  target : NodeId
  kind : EdgeKind
  seq : Nat
  op : DeltaOp
  file : FileId
  spans : List Span
  deriving DecidableEq, Repr

namespace DeltaEdge

def new (source target : NodeId) (kind : EdgeKind) (seq : Nat) (op : DeltaOp) (file : FileId) :
    DeltaEdge := ⟨source, target, kind, seq, op, file, []⟩

def edgeKey (e : DeltaEdge) : EdgeKey := ⟨e.source, e.target, e.kind⟩

def isAdd (e : DeltaEdge) : Bool := e.op = .add

/-- `size_of::<Vec<Span>>()`: pointer, capacity and length. -/
def VEC_OVERHEAD : Nat := 24

/-- `size_of::<Span>()`: two positions of two words. -/
def SPAN_SIZE : Nat := 32

def byteSize (e : DeltaEdge) : Nat :=
  37 + VEC_OVERHEAD + e.spans.length * SPAN_SIZE + e.kind.estimatedSize

end DeltaEdge

def bytesOf : List DeltaEdge → Nat
  | [] => 0
  | e :: es => e.byteSize + bytesOf es

theorem bytesOf_append (l m : List DeltaEdge) : bytesOf (l ++ m) = bytesOf l + bytesOf m := by
  induction l with
  | nil => simp [bytesOf]
  | cons e l ih => simp [bytesOf, ih, Nat.add_assoc]

theorem bytesOf_perm {l m : List DeltaEdge} (h : l.Perm m) : bytesOf l = bytesOf m := by
  induction h with
  | nil => rfl
  | cons e _ ih => simp [bytesOf, ih]
  | swap e f l => simp only [bytesOf]; omega
  | trans _ _ ih₁ ih₂ => exact ih₁.trans ih₂

structure DeltaBuffer where
  edges : AList fun _ : FileId => List DeltaEdge
  edgeCount : Nat
  byteSize : Nat
  seqCounter : Nat

namespace DeltaBuffer

def new : DeltaBuffer := ⟨∅, 0, 0, 0⟩

def iter (b : DeltaBuffer) : List DeltaEdge := Buckets.all b.edges

def edgesForFile (b : DeltaBuffer) (file : FileId) : List DeltaEdge := Buckets.bucket b.edges file

def push (b : DeltaBuffer) (e : DeltaEdge) : DeltaBuffer :=
  { b with
    edges := Buckets.push b.edges e.file e
    edgeCount := b.edgeCount + 1
    byteSize := b.byteSize + e.byteSize }

/-- `next_seq`: the number it returns and the buffer after it. The counter is a `u64` that
no run of calls can exhaust; where callers supply sequence numbers, the results about them
keep the counter below the bound. -/
def nextSeq (b : DeltaBuffer) : Nat × DeltaBuffer :=
  (b.seqCounter, { b with seqCounter := b.seqCounter + 1 })

def clearFile (b : DeltaBuffer) (file : FileId) : DeltaBuffer × Nat :=
  match b.edges.lookup file with
  | some es =>
    ({ b with
      edges := b.edges.erase file
      edgeCount := b.edgeCount - es.length
      byteSize := b.byteSize - bytesOf es }, es.length)
  | none => (b, 0)

def clear (b : DeltaBuffer) : DeltaBuffer := ⟨∅, 0, 0, b.seqCounter⟩

def advanceSeqTo (b : DeltaBuffer) (minValue : Nat) : DeltaBuffer :=
  if b.seqCounter ≥ minValue then b else { b with seqCounter := minValue }

def retainIf (b : DeltaBuffer) (keep : DeltaEdge → Bool) : DeltaBuffer :=
  { b with
    edges := Buckets.retain keep b.edges
    edgeCount := b.edgeCount - (b.iter.filter fun e => !keep e).length
    byteSize := b.byteSize - bytesOf (b.iter.filter fun e => !keep e) }

structure Counted (b : DeltaBuffer) : Prop where
  edgeCount_eq : b.edgeCount = b.iter.length
  byteSize_eq : b.byteSize = bytesOf b.iter
  file_eq : ∀ f, ∀ e ∈ b.edgesForFile f, e.file = f

@[simp] theorem iter_new : new.iter = [] := rfl

@[simp] theorem iter_nextSeq (b : DeltaBuffer) : b.nextSeq.2.iter = b.iter := rfl

@[simp] theorem iter_clear (b : DeltaBuffer) : b.clear.iter = [] := rfl

@[simp] theorem seqCounter_clear (b : DeltaBuffer) : b.clear.seqCounter = b.seqCounter := rfl

@[simp] theorem seqCounter_push (b : DeltaBuffer) (e : DeltaEdge) :
    (b.push e).seqCounter = b.seqCounter := rfl

@[simp] theorem seqCounter_retainIf (b : DeltaBuffer) (keep : DeltaEdge → Bool) :
    (b.retainIf keep).seqCounter = b.seqCounter := rfl

theorem iter_push (b : DeltaBuffer) (e : DeltaEdge) : (b.push e).iter.Perm (e :: b.iter) :=
  Buckets.all_push b.edges e.file e

variable {b : DeltaBuffer}

theorem mem_iter_push {e d : DeltaEdge} :
    d ∈ (b.push e).iter ↔ d = e ∨ d ∈ b.iter := by
  rw [(iter_push b e).mem_iff, List.mem_cons]

theorem iter_retainIf (b : DeltaBuffer) (keep : DeltaEdge → Bool) :
    (b.retainIf keep).iter = b.iter.filter keep :=
  Buckets.all_retain keep b.edges

theorem edgesForFile_push (b : DeltaBuffer) (e : DeltaEdge) (f : FileId) :
    (b.push e).edgesForFile f =
      if f = e.file then b.edgesForFile e.file ++ [e] else b.edgesForFile f :=
  Buckets.bucket_push b.edges e.file f e

theorem edgesForFile_retainIf (b : DeltaBuffer) (keep : DeltaEdge → Bool) (f : FileId) :
    (b.retainIf keep).edgesForFile f = (b.edgesForFile f).filter keep :=
  Buckets.bucket_retain keep b.edges f

theorem edges_clearFile (b : DeltaBuffer) (file : FileId) :
    (b.clearFile file).1.edges = b.edges.erase file := by
  rw [clearFile]
  split
  · rfl
  · rename_i hnone
    apply AList.ext
    exact (List.kerase_of_notMem_keys fun hmem =>
      AList.lookup_eq_none.mp hnone (AList.mem_keys.mpr hmem)).symm

@[simp] theorem seqCounter_clearFile (b : DeltaBuffer) (file : FileId) :
    (b.clearFile file).1.seqCounter = b.seqCounter := by
  rw [clearFile]
  split <;> rfl

theorem edgesForFile_clearFile (b : DeltaBuffer) (file f : FileId) :
    (b.clearFile file).1.edgesForFile f = if f = file then [] else b.edgesForFile f := by
  rw [edgesForFile, edges_clearFile]
  exact Buckets.bucket_erase b.edges file f

theorem iter_clearFile_split (b : DeltaBuffer) (file : FileId) :
    b.iter.Perm (b.edgesForFile file ++ (b.clearFile file).1.iter) := by
  rw [iter, iter, edges_clearFile]
  exact Buckets.all_split b.edges file

theorem edgeCount_clearFile (b : DeltaBuffer) (file : FileId) :
    (b.clearFile file).1.edgeCount = b.edgeCount - (b.edgesForFile file).length := by
  rw [clearFile, edgesForFile, Buckets.bucket]
  split
  · rename_i es hes
    rw [hes]
    rfl
  · rename_i hnone
    rw [hnone]
    rfl

theorem byteSize_clearFile (b : DeltaBuffer) (file : FileId) :
    (b.clearFile file).1.byteSize = b.byteSize - bytesOf (b.edgesForFile file) := by
  rw [clearFile, edgesForFile, Buckets.bucket]
  split
  · rename_i es hes
    rw [hes]
    rfl
  · rename_i hnone
    rw [hnone]
    rfl

theorem counted_new : new.Counted := ⟨rfl, rfl, fun _ _ h => by cases h⟩

theorem Counted.clear : b.clear.Counted := ⟨rfl, rfl, fun _ _ h => by cases h⟩

theorem Counted.push (h : b.Counted) (e : DeltaEdge) : (b.push e).Counted := by
  refine ⟨?_, ?_, fun f d hd => ?_⟩
  · rw [(iter_push b e).length_eq, List.length_cons, ← h.edgeCount_eq]
    rfl
  · rw [bytesOf_perm (iter_push b e), bytesOf, ← h.byteSize_eq, Nat.add_comm]
    rfl
  · rw [edgesForFile_push] at hd
    by_cases hf : f = e.file
    · rw [if_pos hf] at hd
      cases List.mem_append.mp hd with
      | inl hin => exact (h.file_eq _ d hin).trans hf.symm
      | inr hin => rw [List.mem_singleton.mp hin, hf]
    · rw [if_neg hf] at hd
      exact h.file_eq f d hd

theorem Counted.clearFile (h : b.Counted) (file : FileId) :
    (b.clearFile file).1.Counted := by
  have hsplit := iter_clearFile_split b file
  refine ⟨?_, ?_, fun f d hd => ?_⟩
  · have hlen := hsplit.length_eq
    rw [List.length_append] at hlen
    rw [edgeCount_clearFile, h.edgeCount_eq]
    omega
  · have hbytes := bytesOf_perm hsplit
    rw [bytesOf_append] at hbytes
    rw [byteSize_clearFile, h.byteSize_eq]
    omega
  · rw [edgesForFile_clearFile] at hd
    split at hd
    · cases hd
    · exact h.file_eq f d hd

theorem seqCounter_advanceSeqTo (b : DeltaBuffer) (n : Nat) :
    (b.advanceSeqTo n).seqCounter = max b.seqCounter n := by
  rw [advanceSeqTo]
  split
  · rename_i hle
    exact (Nat.max_eq_left hle).symm
  · rename_i hlt
    exact (Nat.max_eq_right (Nat.le_of_not_le hlt)).symm

@[simp] theorem edges_advanceSeqTo (b : DeltaBuffer) (n : Nat) :
    (b.advanceSeqTo n).edges = b.edges := by
  rw [advanceSeqTo]
  split <;> rfl

@[simp] theorem iter_advanceSeqTo (b : DeltaBuffer) (n : Nat) :
    (b.advanceSeqTo n).iter = b.iter := by
  rw [iter, iter, edges_advanceSeqTo]

@[simp] theorem edgesForFile_advanceSeqTo (b : DeltaBuffer) (n : Nat) (f : FileId) :
    (b.advanceSeqTo n).edgesForFile f = b.edgesForFile f := by
  rw [edgesForFile, edgesForFile, edges_advanceSeqTo]

theorem Counted.advanceSeqTo (h : b.Counted) (n : Nat) :
    (b.advanceSeqTo n).Counted := by
  rw [DeltaBuffer.advanceSeqTo]
  split
  · exact h
  · exact ⟨h.edgeCount_eq, h.byteSize_eq, h.file_eq⟩

@[simp] theorem seqCounter_foldl_push (b : DeltaBuffer) (es : List DeltaEdge) :
    (es.foldl DeltaBuffer.push b).seqCounter = b.seqCounter := by
  induction es generalizing b with
  | nil => rfl
  | cons e es ih => exact ih (b.push e)

theorem Counted.foldl_push (h : b.Counted) (es : List DeltaEdge) :
    (es.foldl DeltaBuffer.push b).Counted := by
  induction es generalizing b with
  | nil => exact h
  | cons e es ih => exact ih (h.push e)

theorem edgesForFile_foldl_push (b : DeltaBuffer) (es : List DeltaEdge) (f : FileId) :
    (es.foldl DeltaBuffer.push b).edgesForFile f =
      b.edgesForFile f ++ es.filter fun e => e.file = f := by
  induction es generalizing b with
  | nil => exact (List.append_nil _).symm
  | cons e es ih =>
    rw [List.foldl_cons, ih, edgesForFile_push]
    by_cases hf : f = e.file
    · subst hf
      simp [List.filter_cons_of_pos]
    · have hne : ¬ e.file = f := fun heq => hf heq.symm
      simp [hf, hne]

theorem Counted.retainIf (h : b.Counted) (keep : DeltaEdge → Bool) :
    (b.retainIf keep).Counted := by
  have hsplit : b.iter.Perm (b.iter.filter keep ++ b.iter.filter fun e => !keep e) :=
    (List.filter_append_perm keep b.iter).symm
  refine ⟨?_, ?_, fun f d hd => ?_⟩
  · have hlen := hsplit.length_eq
    rw [List.length_append] at hlen
    have hcount : (b.retainIf keep).edgeCount =
        b.edgeCount - (b.iter.filter fun e => !keep e).length := rfl
    rw [hcount, iter_retainIf, h.edgeCount_eq]
    omega
  · have hbytes := bytesOf_perm hsplit
    rw [bytesOf_append] at hbytes
    have hsize : (b.retainIf keep).byteSize =
        b.byteSize - bytesOf (b.iter.filter fun e => !keep e) := rfl
    rw [hsize, iter_retainIf, h.byteSize_eq]
    omega
  · rw [edgesForFile_retainIf] at hd
    exact h.file_eq f d (List.mem_filter.mp hd).1

end DeltaBuffer
end Sqry
