import Sqry.Graph.Stores

/-!
Every way to register a file is one operation with a key, so what the registry keeps is
proved of three transitions: an entry stored, changed in place or taken out. The nodes
recorded for a slot are followed over whole runs.
-/

namespace Sqry
namespace Registry

section Operations
variable (π : Type)

inductive Registration where
  | register (path : π) (language : Option Language)
  | strict (path : π)
  | canonical (path : π) (language : Option Language)
  | external (path : π) (language : Option Language) (sourceUri : Option StringId)

inductive Operation where
  | registration (registration : Registration π)
  | batch (files : List (π × Option Language))
  | unregister (file : FileId)
  | recordNode (file : FileId) (node : NodeId)
  | takeNodes (file : FileId)
  | retainNodes (keep : NodeId → Bool)
  | clear

end Operations

variable {π : Type} [DecidableEq π] (paths : PathFunctions π)

namespace Registration

def apply (r : FileRegistry π) : Registration π →
    FileRegistry π × Except (RegistryError π) FileId
  | register path language => r.registerWithLanguage paths path language
  | strict path => r.tryRegisterStrict paths path
  | canonical path language => r.registerCanonicalWithLanguage path language
  | external path language sourceUri => r.registerExternalWithUri path language sourceUri

def key : Registration π → Except (RegistryError π) π
  | register path _ => .ok (paths.normalizePath path)
  | strict path =>
    match paths.canonicalize path with
    | .error message => .error (.canonicalizationFailed path message)
    | .ok path => .ok path
  | canonical path _ | external path _ _ => .ok path

omit [DecidableEq π] in
theorem setLanguage_path (language : Option Language) (entry : FileEntry π) :
    (FileRegistry.setLanguage language entry).path = entry.path := by
  cases language with
  | none => rfl
  | some lang => rfl

omit [DecidableEq π] in
theorem markExternal_path (language : Option Language) (sourceUri : Option StringId)
    (entry : FileEntry π) :
    (FileRegistry.markExternal language sourceUri entry).path = entry.path := by
  simp only [FileRegistry.markExternal]
  exact setLanguage_path language { entry with isExternal := true }

end Registration

namespace FileRegistry

def step (r : FileRegistry π) : Operation π → FileRegistry π
  | .registration registration => (registration.apply paths r).1
  | .batch files => (r.registerBatch paths files).1
  | .unregister file => (r.unregister file).1
  | .recordNode file node => r.recordNode file node
  | .takeNodes file => (r.takeNodes file).1
  | .retainNodes keep => r.retainNodesInBuckets keep
  | .clear => r.clear

def takeStep (r : FileRegistry π) (op : Operation π) : Option (FileRegistry π) :=
  some (r.step paths op)

/-- What a registration under `path` leaves. -/
inductive Registered (r : FileRegistry π) (path : π) :
    FileRegistry π → Except (RegistryError π) FileId → Prop where
  | known (index : Nat) (entry changed : FileEntry π) (hlookup : r.lookup.lookup path = some index)
      (hentry : r.entries[index]? = some (some entry)) (hpath : changed.path = entry.path) :
      Registered r path { r with entries := r.entries.set index (some changed) } (.ok index)
  | reused (index : Nat) (rest : List Nat) (entry : FileEntry π)
      (hlookup : r.lookup.lookup path = none) (hfree : r.freeList = index :: rest)
      (hpath : entry.path = path) :
      Registered r path
        { r with
          entries := r.entries.set index (some entry)
          freeList := rest
          lookup := r.lookup.insert path index } (.ok index)
  | appended (entry : FileEntry π) (hlookup : r.lookup.lookup path = none)
      (hfree : r.freeList = []) (hroom : r.entries.length < u32Max) (hpath : entry.path = path) :
      Registered r path
        { r with
          entries := r.entries ++ [some entry]
          lookup := r.lookup.insert path r.entries.length } (.ok r.entries.length)
  | exhausted (hlookup : r.lookup.lookup path = none) (hfree : r.freeList = [])
      (hfull : u32Max ≤ r.entries.length) : Registered r path r (.error .capacityExhausted)

structure Valid (r : FileRegistry π) : Prop where
  consistent : KeyedSlots.Consistent FileEntry.path r.entries r.lookup r.freeList
  bounded : r.entries.length ≤ u32Max

theorem valid_new : (new : FileRegistry π).Valid := 
  ⟨KeyedSlots.consistent_new, by simp [new, u32Max]⟩

variable {r r' : FileRegistry π}

theorem Valid.lookup_entry (h : r.Valid) {path : π} {index : Nat}
    (hlookup : r.lookup.lookup path = some index) :
    ∃ entry, r.entries[index]? = some (some entry) ∧ entry.path = path :=
  (h.consistent.lookup_iff path index).mp hlookup

theorem registerEntry_registered (h : r.Valid) (known : FileEntry π → FileEntry π)
    (entry : FileEntry π) (hknown : ∀ e, (known e).path = e.path) :
    Registered r entry.path (r.registerEntry known entry).1 (r.registerEntry known entry).2 := by
  cases hlookup : r.lookup.lookup entry.path with
  | some index =>
    obtain ⟨e, hentry, _⟩ := h.lookup_entry hlookup
    have hmodify : r.entries.modify index (Option.map known) =
        r.entries.set index (some (known e)) := by
      rw [List.modify_eq_set_getElem?, hentry]
      rfl
    simp only [registerEntry, hlookup, hmodify]
    exact .known index e (known e) hlookup hentry (hknown e)
  | none =>
    simp only [registerEntry, hlookup, allocate]
    cases hfree : r.freeList with
    | cons index rest => exact .reused index rest entry hlookup hfree rfl
    | nil =>
      by_cases hfull : r.entries.length > u32Max - 1
      · simp only [if_pos hfull]
        refine .exhausted hlookup hfree ?_
        simp only [u32Max] at hfull ⊢
        omega
      · simp only [if_neg hfull]
        have hroom : r.entries.length < u32Max := by
          simp only [u32Max] at hfull ⊢
          omega
        have happended := Registered.appended entry hlookup hfree hroom rfl
        rw [hfree] at happended
        exact happended

theorem apply_registered (h : r.Valid) (registration : Registration π) :
    match registration.key paths with
    | .ok path => Registered r path (registration.apply paths r).1 (registration.apply paths r).2
    | .error e => registration.apply paths r = (r, .error e) := by
  cases registration with
  | register path language =>
    exact registerEntry_registered h _ (newEntry (paths.normalizePath path) language)
      (Registration.setLanguage_path language)
  | canonical path language =>
    exact registerEntry_registered h _ (newEntry path language)
      (Registration.setLanguage_path language)
  | external path language sourceUri =>
    exact registerEntry_registered h _
      { newEntry path language with isExternal := true, sourceUri := sourceUri }
      (Registration.markExternal_path language sourceUri)
  | strict path =>
    simp only [Registration.key, Registration.apply, tryRegisterStrict]
    cases paths.canonicalize path with
    | error message => rfl
    | ok canonical => exact registerEntry_registered h id (newEntry canonical none) fun _ => rfl

section Validity
variable {e : RegistryError π} {path : π}

theorem Registered.valid {result : Except (RegistryError π) FileId} (h : r.Valid)
    (hreg : Registered r path r' result) : r'.Valid := by
  cases hreg with
  | known index entry changed hlookup hentry hpath =>
    exact ⟨h.consistent.update hentry hpath, by simpa using h.bounded⟩
  | reused index rest entry hlookup hfree hpath =>
    cases hpath
    have hconsistent := h.consistent
    rw [hfree] at hconsistent
    exact ⟨hconsistent.reuse hlookup, by simpa using h.bounded⟩
  | appended entry hlookup hfree hroom hpath =>
    cases hpath
    refine ⟨h.consistent.append hlookup, ?_⟩
    simpa using Nat.succ_le_of_lt hroom
  | exhausted hlookup hfree hfull => exact h

theorem apply_valid (h : r.Valid) (registration : Registration π) :
    (registration.apply paths r).1.Valid := by
  have hspec := apply_registered paths h registration
  cases hkey : registration.key paths with
  | ok path =>
    simp only [hkey] at hspec
    exact hspec.valid h
  | error e =>
    simp only [hkey] at hspec
    simpa only [hspec] using h

inductive RegisteredAll : FileRegistry π → List (π × Option Language) → List FileId →
    FileRegistry π → Prop where
  | nil (r : FileRegistry π) : RegisteredAll r [] [] r
  | cons {r r₁ r₂ : FileRegistry π} {path : π} {language : Option Language} {file : FileId}
      {files : List (π × Option Language)} {ids : List FileId}
      (hfirst : r.registerWithLanguage paths path language = (r₁, .ok file))
      (hrest : RegisteredAll r₁ files ids r₂) :
      RegisteredAll r ((path, language) :: files) (file :: ids) r₂

theorem Registered.error_eq (hreg : Registered r path r' (.error e)) : r' = r := by
  cases hreg with
  | exhausted hlookup hfree hfull => rfl

theorem apply_error (h : r.Valid) (registration : Registration π)
    (herror : (registration.apply paths r).2 = .error e) :
    (registration.apply paths r).1 = r := by
  have hspec := apply_registered paths h registration
  cases hkey : registration.key paths with
  | ok path =>
    simp only [hkey, herror] at hspec
    exact hspec.error_eq
  | error e =>
    simp only [hkey] at hspec
    simp only [hspec]

theorem registerWithLanguage_error (h : r.Valid) {language : Option Language}
    (herror : r.registerWithLanguage paths path language = (r', .error e)) :
    r' = r := by
  have hresult : ((Registration.register path language).apply paths r).2 = .error e := by
    simp only [Registration.apply, herror]
  have hsame := apply_error paths h (.register path language) hresult
  simpa only [Registration.apply, herror] using hsame

theorem registerBatch_spec (files : List (π × Option Language)) (r : FileRegistry π)
    (h : r.Valid) :
    match r.registerBatch paths files with
    | (r', .ok ids) => RegisteredAll paths r files ids r'
    | (r', .error e) => ∃ before path language rest ids,
        files = before ++ (path, language) :: rest ∧ RegisteredAll paths r before ids r' ∧
          r'.registerWithLanguage paths path language = (r', .error e) := by
  induction files generalizing r with
  | nil => exact .nil r
  | cons file files ih =>
    obtain ⟨path, language⟩ := file
    have hvalid := apply_valid paths h (.register path language)
    simp only [Registration.apply] at hvalid
    cases hfirst : r.registerWithLanguage paths path language with
    | mk r₁ result =>
      cases result with
      | error e =>
        cases registerWithLanguage_error paths h hfirst
        simp only [registerBatch, hfirst]
        exact ⟨[], path, language, files, [], rfl, .nil r, hfirst⟩
      | ok id =>
        rw [hfirst] at hvalid
        have hrest := ih r₁ hvalid
        cases hbatch : r₁.registerBatch paths files with
        | mk r₂ result =>
          rw [hbatch] at hrest
          cases result with
          | ok ids =>
            simp only [registerBatch, hfirst, hbatch]
            exact .cons hfirst hrest
          | error e =>
            simp only [registerBatch, hfirst, hbatch]
            obtain ⟨before, path', language', rest, ids, hsplit, hbefore, hfail⟩ := hrest
            exact ⟨(path, language) :: before, path', language', rest, id :: ids,
              by rw [hsplit]; rfl, .cons hfirst hbefore, hfail⟩

theorem RegisteredAll.induct {P : FileRegistry π → Prop} {files : List (π × Option Language)}
    {ids : List FileId} (hall : RegisteredAll paths r files ids r') (h : r.Valid) (hr : P r)
    (preserved : ∀ (r : FileRegistry π) (registration : Registration π), r.Valid → P r →
      P (registration.apply paths r).1) : P r' := by
  induction hall with
  | nil r => exact hr
  | @cons r r₁ r₂ path language file files ids hfirst hrest ih =>
    have hvalid := apply_valid paths h (.register path language)
    have hnext := preserved _ (.register path language) h hr
    simp only [Registration.apply, hfirst] at hvalid hnext
    exact ih hvalid hnext

theorem registerBatch_induct {P : FileRegistry π → Prop} (files : List (π × Option Language))
    (h : r.Valid) (hr : P r)
    (preserved : ∀ (r : FileRegistry π) (registration : Registration π), r.Valid → P r →
      P (registration.apply paths r).1) : P (r.registerBatch paths files).1 := by
  have hspec := registerBatch_spec paths files r h
  cases hbatch : r.registerBatch paths files with
  | mk r' result =>
    rw [hbatch] at hspec
    cases result with
    | ok ids => exact hspec.induct paths h hr preserved
    | error e =>
      obtain ⟨before, path, language, rest, ids, _, hbefore, _⟩ := hspec
      exact hbefore.induct paths h hr preserved

theorem unregister_cases (r : FileRegistry π) (file : FileId) :
    r.unregister file = (r, none) ∨ ∃ entry, r.entries[file]? = some (some entry) ∧
      r.unregister file =
        ({ entries := r.entries.set file none
           lookup := r.lookup.erase entry.path
           freeList := file :: r.freeList
           perFileNodes := r.perFileNodes.erase file }, some entry.path) := by
  by_cases hfile : file = FileId.INVALID
  · rw [unregister, if_pos hfile]
    exact Or.inl rfl
  · rw [unregister, if_neg hfile]
    cases hentry : r.entries[file]?.join with
    | none => exact Or.inl rfl
    | some entry =>
      right
      exact ⟨entry, Option.join_eq_some_iff.mp hentry, rfl⟩

theorem step_valid (h : r.Valid) (op : Operation π) : (r.step paths op).Valid := by
  cases op with
  | registration registration => exact apply_valid paths h registration
  | batch files =>
    exact registerBatch_induct paths files h h fun r registration hr _ =>
      apply_valid paths hr registration
  | unregister file =>
    cases unregister_cases r file with
    | inl hnone => simpa only [step, hnone] using h
    | inr htaken =>
      obtain ⟨entry, hentry, htaken⟩ := htaken
      simp only [step, htaken]
      exact ⟨h.consistent.release hentry, by simpa using h.bounded⟩
  | recordNode file node => exact ⟨h.consistent, h.bounded⟩
  | takeNodes file => exact ⟨h.consistent, h.bounded⟩
  | retainNodes keep => exact ⟨h.consistent, h.bounded⟩
  | clear => exact valid_new

end Validity

section Slots
variable {file : FileId} {op : Operation π} {path : π}

theorem resolve_eq_some : r.resolve file = some path ↔
    file ≠ FileId.INVALID ∧ ∃ entry, r.entries[file]? = some (some entry) ∧ entry.path = path := by
  by_cases hfile : file = FileId.INVALID
  · simp [resolve, hfile]
  · simp [resolve, hfile, Option.join_eq_some_iff]

theorem Valid.ne_invalid (h : r.Valid) {entry : FileEntry π}
    (hentry : r.entries[file]? = some (some entry)) : file ≠ FileId.INVALID := by
  intro hfile
  have hlt : file < r.entries.length := (List.getElem?_eq_some_iff.mp hentry).1
  rw [hfile] at hlt
  exact absurd hlt (Nat.not_lt_of_le h.bounded)

theorem Valid.resolve_iff (h : r.Valid) :
    r.resolve file = some path ↔ r.lookup.lookup path = some file := by
  rw [resolve_eq_some, h.consistent.lookup_iff]
  constructor
  · intro hentry
    exact hentry.2
  · intro ⟨entry, hentry, hpath⟩
    exact ⟨h.ne_invalid hentry, entry, hentry, hpath⟩

theorem Registered.lookup_self (hreg : Registered r path r' (.ok file)) :
    r'.lookup.lookup path = some file := by
  cases hreg with
  | known index entry changed hlookup hentry hpath => exact hlookup
  | reused index rest entry hlookup hfree hpath => exact AList.lookup_insert _
  | appended entry hlookup hfree hroom hpath => exact AList.lookup_insert _

theorem Registered.lookup_kept {result : Except (RegistryError π) FileId}
    (hreg : Registered r path r' result) {kept : π} (hkept : r.lookup.lookup kept = some file)
    : r'.lookup.lookup kept = some file := by
  have hinsert : r.lookup.lookup path = none →
      ∀ index, (r.lookup.insert path index).lookup kept = some file := by
    intro hnew index
    have hne : kept ≠ path := by
      intro heq
      rw [heq, hnew] at hkept
      cases hkept
    rw [AList.lookup_insert_ne hne]
    exact hkept
  cases hreg with
  | known index entry changed hlookup hentry hpath => exact hkept
  | reused index rest entry hlookup hfree hpath => exact hinsert hlookup index
  | appended entry hlookup hfree hroom hpath => exact hinsert hlookup _
  | exhausted hlookup hfree hfull => exact hkept

theorem Registered.perFileNodes_eq {result : Except (RegistryError π) FileId}
    (hreg : Registered r path r' result) : r'.perFileNodes = r.perFileNodes := by
  cases hreg with
  | known index entry changed hlookup hentry hpath => rfl
  | reused index rest entry hlookup hfree hpath => rfl
  | appended entry hlookup hfree hroom hpath => rfl
  | exhausted hlookup hfree hfull => rfl

theorem apply_lookup_kept (h : r.Valid) (registration : Registration π) {kept : π}
    (hkept : r.lookup.lookup kept = some file) :
    (registration.apply paths r).1.lookup.lookup kept = some file := by
  have hspec := apply_registered paths h registration
  cases hkey : registration.key paths with
  | ok path =>
    simp only [hkey] at hspec
    exact hspec.lookup_kept hkept
  | error e =>
    simp only [hkey] at hspec
    simpa only [hspec] using hkept

theorem apply_perFileNodes (h : r.Valid) (registration : Registration π) :
    (registration.apply paths r).1.perFileNodes = r.perFileNodes := by
  have hspec := apply_registered paths h registration
  cases hkey : registration.key paths with
  | ok path =>
    simp only [hkey] at hspec
    exact hspec.perFileNodes_eq
  | error e =>
    simp only [hkey] at hspec
    simp only [hspec]

def Keeps (file : FileId) : Operation π → Prop
  | .unregister other => other ≠ file
  | .clear => False
  | _ => True

theorem step_lookup_kept (h : r.Valid) (hkeeps : Keeps file op)
    (hkept : r.lookup.lookup path = some file) :
    (r.step paths op).lookup.lookup path = some file := by
  cases op with
  | registration registration => exact apply_lookup_kept paths h registration hkept
  | batch files =>
    exact registerBatch_induct paths (P := fun r => r.lookup.lookup path = some file) files h
      hkept fun r registration hr hkept => apply_lookup_kept paths hr registration hkept
  | unregister other =>
    cases unregister_cases r other with
    | inl hnone => simpa only [step, hnone] using hkept
    | inr htaken =>
      obtain ⟨entry, hentry, htaken⟩ := htaken
      have hne : path ≠ entry.path := by
        intro heq
        have hother := (h.consistent.lookup_iff path other).mpr ⟨entry, hentry, heq.symm⟩
        rw [hkept] at hother
        exact hkeeps (Option.some.inj hother).symm
      simp only [step, htaken]
      rw [AList.lookup_erase_ne hne]
      exact hkept
  | recordNode other node => exact hkept
  | takeNodes other => exact hkept
  | retainNodes keep => exact hkept
  | clear => exact absurd hkeeps id

def RecordsRegistered (file : FileId) (r : FileRegistry π) : Operation π → Prop
  | .recordNode other _ => other = file → (r.resolve file).isSome
  | _ => True

def VacantEmpty (file : FileId) (r : FileRegistry π) : Prop :=
  r.resolve file = none → r.nodesForFile file = []

theorem step_nodesForFile_nil (h : r.Valid) (hop : ∀ node, op ≠ .recordNode file node)
    (hempty : r.nodesForFile file = []) :
    (r.step paths op).nodesForFile file = [] := by
  cases op with
  | registration registration =>
    simpa only [step, nodesForFile, apply_perFileNodes paths h registration] using hempty
  | batch files =>
    refine registerBatch_induct paths (P := fun r => r.nodesForFile file = []) files h hempty ?_
    intro r registration hr hempty
    simpa only [nodesForFile, apply_perFileNodes paths hr registration] using hempty
  | unregister other =>
    cases unregister_cases r other with
    | inl hnone => simpa only [step, hnone] using hempty
    | inr htaken =>
      obtain ⟨entry, hentry, htaken⟩ := htaken
      simp only [step, htaken, nodesForFile, Buckets.bucket_erase]
      by_cases heq : file = other
      · rw [if_pos heq]
      · rw [if_neg heq]
        exact hempty
  | recordNode other node =>
    have hne : file ≠ other := by
      intro heq
      exact hop node (by rw [heq])
    simp only [step, recordNode, nodesForFile, Buckets.bucket_push, if_neg hne]
    exact hempty
  | takeNodes other =>
    simp only [step, takeNodes, nodesForFile, Buckets.bucket_erase] at hempty ⊢
    by_cases heq : file = other
    · rw [if_pos heq]
    · rw [if_neg heq, hempty]
  | retainNodes keep =>
    simp only [step, retainNodesInBuckets, nodesForFile] at hempty ⊢
    rw [Buckets.bucket_rebucket (by simp), hempty]
    simp
  | clear => rfl

theorem step_nodesForFile_of_lost (h : r.Valid) (hlive : r.resolve file = some path)
    (hvacant : (r.step paths op).resolve file = none) :
    (r.step paths op).nodesForFile file = [] := by
  have hlost : ¬ Keeps file op := by
    intro hkeeps
    have hkept := step_lookup_kept paths h hkeeps (h.resolve_iff.mp hlive)
    rw [(step_valid paths h op).resolve_iff.mpr hkept] at hvacant
    cases hvacant
  cases op with
  | unregister other =>
    have heq : other = file := Classical.not_not.mp hlost
    cases unregister_cases r other with
    | inl hnone =>
      simp only [step, hnone, hlive] at hvacant
      cases hvacant
    | inr htaken =>
      obtain ⟨entry, hentry, htaken⟩ := htaken
      simp only [step, htaken, nodesForFile, Buckets.bucket_erase, if_pos heq.symm]
  | clear => rfl
  | _ => exact absurd trivial hlost

theorem step_vacantEmpty (h : r.Valid) (hop : RecordsRegistered file r op)
    (hfile : r.VacantEmpty file) :
    (r.step paths op).VacantEmpty file := by
  intro hvacant
  cases hlive : r.resolve file with
  | some path => exact step_nodesForFile_of_lost paths h hlive hvacant
  | none =>
    refine step_nodesForFile_nil paths h ?_ (hfile hlive)
    intro node heq
    rw [heq] at hop
    have hsome := hop rfl
    rw [hlive] at hsome
    cases hsome

end Slots

section Runs
variable {ops : List (Operation π)} {file : FileId}

theorem run_valid (h : r.Valid) (hrun : StepSystem.run (takeStep paths) r ops = some r')
    : r'.Valid := by
  refine StepSystem.invariant_of_run ?_ h hrun
  intro s op s' hs hstep
  cases hstep
  exact step_valid paths hs op

theorem run_lookup_kept {path : π} (h : r.Valid) (hkept : r.lookup.lookup path = some file)
    (hops : ∀ op ∈ ops, Keeps file op) (hrun : StepSystem.run (takeStep paths) r ops = some r') :
    r'.lookup.lookup path = some file := by
  have hok : StepSystem.RunOk (takeStep paths) (fun _ op => Keeps file op) r ops :=
    StepSystem.runOk_of_forall_mem fun op hop _ => hops op hop
  have preserved : ∀ (s : FileRegistry π) (op : Operation π) (s' : FileRegistry π),
      s.Valid ∧ s.lookup.lookup path = some file → Keeps file op →
        takeStep paths s op = some s' → s'.Valid ∧ s'.lookup.lookup path = some file := by
    intro s op s' hs hkeeps hstep
    cases hstep
    exact ⟨step_valid paths hs.1 op, step_lookup_kept paths hs.1 hkeeps hs.2⟩
  exact (StepSystem.invariant_of_runOk preserved ⟨h, hkept⟩ hok hrun).2

theorem run_vacantEmpty
    (hrecords : StepSystem.RunOk (takeStep paths) (RecordsRegistered file) new ops)
    (hrun : StepSystem.run (takeStep paths) new ops = some r) : r.VacantEmpty file := by
  have preserved : ∀ (s : FileRegistry π) (op : Operation π) (s' : FileRegistry π),
      s.Valid ∧ s.VacantEmpty file → RecordsRegistered file s op →
        takeStep paths s op = some s' → s'.Valid ∧ s'.VacantEmpty file := by
    intro s op s' hs hop hstep
    cases hstep
    exact ⟨step_valid paths hs.1 op, step_vacantEmpty paths hs.1 hop hs.2⟩
  exact (StepSystem.invariant_of_runOk preserved ⟨valid_new, fun _ => rfl⟩ hrecords hrun).2

theorem apply_lookup_self (h : r.Valid) (registration : Registration π) {path : π}
    (hkey : registration.key paths = .ok path) (hfile : (registration.apply paths r).2 = .ok file) :
    (registration.apply paths r).1.lookup.lookup path = some file := by
  have hspec := apply_registered paths h registration
  simp only [hkey, hfile] at hspec
  exact hspec.lookup_self

theorem apply_twice (h : r.Valid) {first second : Registration π} {between : List (Operation π)}
    {path path' : π} {file file' : FileId} (hkey : first.key paths = .ok path)
    (hfile : (first.apply paths r).2 = .ok file)
    (hrun : StepSystem.run (takeStep paths) (first.apply paths r).1 between = some r')
    (hkeeps : ∀ op ∈ between, Keeps file op) (hkey' : second.key paths = .ok path')
    (hfile' : (second.apply paths r').2 = .ok file') : file' = file ↔ path' = path := by
  have hvalid := run_valid paths (apply_valid paths h first) hrun
  have hkept := apply_lookup_kept paths hvalid second (run_lookup_kept paths
    (apply_valid paths h first) (apply_lookup_self paths h first hkey hfile) hkeeps hrun)
  have hself := apply_lookup_self paths hvalid second hkey' hfile'
  have hlast := (apply_valid paths hvalid second).consistent
  constructor
  · intro heq
    obtain ⟨entry, hentry, hpath⟩ := (hlast.lookup_iff path file).mp hkept
    obtain ⟨entry', hentry', hpath'⟩ := (hlast.lookup_iff path' file').mp hself
    rw [heq, hentry] at hentry'
    cases hentry'
    rw [← hpath', hpath]
  · intro heq
    rw [heq, hkept] at hself
    exact (Option.some.inj hself).symm

/-- What holds of a registry after the run `ops`. -/
structure Guarantees (ops : List (Operation π)) (r : FileRegistry π) : Prop where
  lookup_iff : ∀ path file, r.lookup.lookup path = some file ↔
    ∃ entry, r.entries[file]? = some (some entry) ∧ entry.path = path
  free_nodup : r.freeList.Nodup
  mem_free : ∀ slot, slot ∈ r.freeList ↔ slot ≠ 0 ∧ r.entries[slot]? = some none
  resolve_iff : ∀ file, file ≠ FileId.INVALID → ∀ path,
    r.resolve file = some path ↔ r.lookup.lookup path = some file
  registered_twice : ∀ (first second : Registration π) (between : List (Operation π))
    (r' : FileRegistry π) (path path' : π) (file file' : FileId),
    first.key paths = .ok path → (first.apply paths r).2 = .ok file →
    StepSystem.run (takeStep paths) (first.apply paths r).1 between = some r' →
    (∀ op ∈ between, Keeps file op) →
    second.key paths = .ok path' → (second.apply paths r').2 = .ok file' →
    (file' = file ↔ path' = path)
  apply_error : ∀ (registration : Registration π) (e : RegistryError π),
    (registration.apply paths r).2 = .error e → (registration.apply paths r).1 = r
  batch : ∀ files : List (π × Option Language),
    match r.registerBatch paths files with
    | (r', .ok ids) => RegisteredAll paths r files ids r'
    | (r', .error e) => ∃ before path language rest ids,
        files = before ++ (path, language) :: rest ∧ RegisteredAll paths r before ids r' ∧
          r'.registerWithLanguage paths path language = (r', .error e)
  fresh_bucket : ∀ file, StepSystem.RunOk (takeStep paths) (RecordsRegistered file) new ops →
    ∀ op : Operation π, r.resolve file = none → ((r.step paths op).resolve file).isSome →
      (r.step paths op).nodesForFile file = []

end Runs

/-- Ids and paths correspond after every run. A slot taken into use has no nodes, unless some
were recorded for it while it was vacant. -/
theorem registry_bijective (ops : List (Operation π))
    (hrun : StepSystem.run (takeStep paths) new ops = some r) : Guarantees paths ops r := by
  have hvalid := run_valid paths valid_new hrun
  refine ⟨hvalid.consistent.lookup_iff, hvalid.consistent.free_nodup, hvalid.consistent.mem_free,
    fun file _ path => hvalid.resolve_iff, ?_, fun registration e => apply_error paths hvalid _,
    fun files => registerBatch_spec paths files r hvalid, ?_⟩
  · intro first second between r' path path' file file' hkey hfile hbetween hkeeps hkey' hfile'
    exact apply_twice paths hvalid hkey hfile hbetween hkeeps hkey' hfile'
  · intro file hrecords op hvacant hused
    refine step_nodesForFile_nil paths hvalid ?_ (run_vacantEmpty paths hrecords hrun hvacant)
    intro node heq
    -- recording a node does not take the slot into use
    rw [heq] at hused
    have hnone : (r.step paths (.recordNode file node)).resolve file = none := hvacant
    rw [hnone] at hused
    cases hused

section Recycled

def identityPaths : PathFunctions Nat := ⟨id, Except.ok⟩

def recycledRun : List (Operation Nat) :=
  [.registration (.register 7 none), .recordNode 1 ⟨3, 1⟩, .unregister 1,
    .registration (.external 8 none none)]

/-- The second file takes the slot of the first, without its node. -/
theorem registry_bijective_recycled :
    ((recycledRun.foldl (step identityPaths) new).resolve 1 = some 8 ∧
      (recycledRun.foldl (step identityPaths) new).nodesForFile 1 = []) ∧
    Guarantees identityPaths recycledRun (recycledRun.foldl (step identityPaths) new) :=
  ⟨⟨rfl, rfl⟩, registry_bijective identityPaths recycledRun rfl⟩

/-- A node recorded for a vacant slot is there when the slot is used again. -/
theorem reused_slot_keeps_node :
    let vacant := [Operation.registration (.register 7 none), .unregister 1,
      .recordNode 1 ⟨3, 1⟩].foldl (step identityPaths) new
    let reused := vacant.step identityPaths (.registration (.register 8 none))
    1 ∈ vacant.freeList ∧ reused.resolve 1 = some 8 ∧ reused.nodesForFile 1 = [⟨3, 1⟩] := by
  decide

end Recycled

end FileRegistry
end Registry
end Sqry
