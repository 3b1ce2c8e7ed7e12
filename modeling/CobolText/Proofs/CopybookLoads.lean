import CobolText.Proofs.Runs
import Mathlib

/-!
# The loads of a run

A run loads a copybook for every `COPY` directive that it carries out, through the cache of its
session.  The log of a run lists these loads in order, those of runs that halt included.  A run
changes the cache by its loads only: each starts with the cache that the one before it leaves.  So a
cache that starts empty holds what was loaded so far, in the order in which it was first loaded, and
a load that fails changes nothing.
-/

namespace CobolText

variable {σ : Type} {α β : Type}

namespace BookCache

/-- The files and encodings of the copybooks of a cache. -/
def keys (c : BookCache) : List (Path × Value) :=
  c.books.map fun b => (b.path, b.encoding)

lemma get?_eq_none_iff {c : BookCache} {path : Path} {encoding : Value} :
    c.get? path encoding = none ↔ (path, encoding) ∉ c.keys := by
  simp [get?, keys]

lemma keys_insert (c : BookCache) (book : LoadedBook) :
    (c.insert book).keys = c.keys ++ [(book.path, book.encoding)] := by
  simp [keys, insert]

end BookCache

/-- One load of a copybook. -/
structure Load where
  /-- The absolute path of the file. -/
  path : Path
  encoding : Value
  before : BookCache
  result : Except Fault (List Char)
  after : BookCache

namespace Load

def inWorld (files : FileAccess (StateM σ)) (path : Path) (encoding : Value) (w : World σ) : Load :=
  ⟨Path.resolve files.workDir path, encoding, w.1.cache,
    ((w.1.cache.load files path encoding).run w.2).1.1,
    ((w.1.cache.load files path encoding).run w.2).1.2⟩

/-- What the cache holds after a load that succeeds. -/
def key? (l : Load) : Option (Path × Value) :=
  match l.result with
  | .ok _ => some (l.path, l.encoding)
  | .error _ => none

/-- Whether a load adds the copybook behind those of the cache if it succeeds and the cache does not
hold it yet, and changes nothing otherwise. -/
structure Proper (l : Load) : Prop where
  failed : l.key? = none → l.after = l.before
  known : ∀ key ∈ l.key?, key ∈ l.before.keys → l.after = l.before
  added : ∀ key ∈ l.key?, key ∉ l.before.keys → l.after.keys = l.before.keys ++ [key]

lemma proper_inWorld (files : FileAccess (StateM σ)) (path : Path) (encoding : Value)
    (w : World σ) : (inWorld files path encoding w).Proper := by
  rcases hload : (w.1.cache.load files path encoding).run w.2 with ⟨⟨result, cache⟩, fs⟩
  have hself : inWorld files path encoding w =
      ⟨Path.resolve files.workDir path, encoding, w.1.cache, result, cache⟩ := by
    rw [inWorld, hload]
  rw [hself]
  unfold BookCache.load at hload
  dsimp only at hload
  cases hget : w.1.cache.get? (Path.resolve files.workDir path) encoding with
  | some text =>
    rw [hget] at hload
    obtain ⟨hpair, -⟩ := access_pure_iff.mp hload
    obtain ⟨rfl, rfl⟩ := Prod.mk.inj hpair
    have hkey : (Path.resolve files.workDir path, encoding) ∈ w.1.cache.keys := by
      by_contra hnot
      rw [BookCache.get?_eq_none_iff.mpr hnot] at hget
      cases hget
    refine ⟨fun _ => rfl, fun _ _ _ => rfl, fun key hmem hnot => ?_⟩
    obtain rfl := Option.some.inj hmem
    exact absurd hkey hnot
  | none =>
    rw [hget] at hload
    have hkey := BookCache.get?_eq_none_iff.mp hget
    obtain ⟨read, fs₁, -, hload⟩ := access_bind_iff.mp hload
    cases read with
    | error fault =>
      obtain ⟨hpair, -⟩ := access_pure_iff.mp hload
      obtain ⟨rfl, rfl⟩ := Prod.mk.inj hpair
      refine ⟨fun _ => rfl, fun _ _ _ => rfl, fun key hmem => ?_⟩
      cases hmem
    | ok text =>
      obtain ⟨hpair, -⟩ := access_pure_iff.mp hload
      obtain ⟨rfl, rfl⟩ := Prod.mk.inj hpair
      refine ⟨fun hnone => ?_, fun key hmem hin => ?_, fun key hmem _ => ?_⟩
      · cases hnone
      · obtain rfl := Option.some.inj hmem
        exact absurd hin hkey
      · obtain rfl := Option.some.inj hmem
        exact BookCache.keys_insert _ _

/-- Whether a load is made by the cache it starts with. -/
def Made (files : FileAccess (StateM σ)) (l : Load) : Prop :=
  ∃ path encoding w, l = inWorld files path encoding w

lemma Made.proper {files : FileAccess (StateM σ)} {l : Load} (h : l.Made files) : l.Proper := by
  obtain ⟨path, encoding, w, rfl⟩ := h
  exact proper_inWorld files path encoding w

/-- A cache that holds the first occurrences in a list of keys holds those of the list with the key
of a load behind it. -/
lemma Proper.keys_after {l : Load} (h : l.Proper) {loaded : List (Path × Value)}
    (hbefore : l.before.keys = loaded.eraseDups) :
    l.after.keys = (loaded ++ l.key?.toList).eraseDups := by
  cases hkey : l.key? with
  | none =>
    rw [h.failed hkey, hbefore]
    simp
  | some key =>
    rw [Option.toList_some, List.eraseDups_append]
    by_cases hin : key ∈ l.before.keys
    · rw [h.known key hkey hin, hbefore]
      rw [hbefore, List.mem_eraseDups] at hin
      simp [List.removeAll, hin]
    · rw [h.added key hkey hin, hbefore]
      rw [hbefore, List.mem_eraseDups] at hin
      simp [List.removeAll, hin, List.eraseDups_cons]

end Load

/-- Whether loads lead from one cache to another, each starting with the cache that the one before
it leaves. -/
def Linked (files : FileAccess (StateM σ)) : BookCache → List Load → BookCache → Prop
  | c, [], c' => c = c'
  | c, l :: ls, c' => l.before = c ∧ l.Made files ∧ Linked files l.after ls c'

namespace Linked

variable {files : FileAccess (StateM σ)} {c c' c'' : BookCache} {ls ls' : List Load}

lemma append (h : Linked files c ls c') (h' : Linked files c' ls' c'') :
    Linked files c (ls ++ ls') c'' := by
  induction ls generalizing c with
  | nil =>
    obtain rfl : c = c' := h
    exact h'
  | cons l ls ih => exact ⟨h.1, h.2.1, ih h.2.2⟩

lemma keys_eq (h : Linked files c ls c') (loaded : List (Path × Value))
    (hkeys : c.keys = loaded.eraseDups) :
    c'.keys = (loaded ++ ls.filterMap Load.key?).eraseDups := by
  induction ls generalizing c loaded with
  | nil =>
    obtain rfl : c = c' := h
    rw [List.filterMap_nil, List.append_nil]
    exact hkeys
  | cons l ls ih =>
    obtain ⟨rfl, hmade, hrest⟩ := h
    have hlater := ih hrest _ (hmade.proper.keys_after hkeys)
    rw [hlater, List.append_assoc]
    cases hkey : l.key? with
    | none => rw [List.filterMap_cons_none hkey, Option.toList_none, List.nil_append]
    | some key => rw [List.filterMap_cons_some hkey, Option.toList_some, List.singleton_append]

lemma split (h : Linked files c (ls ++ ls') c') :
    ∃ c₁, Linked files c ls c₁ ∧ Linked files c₁ ls' c' := by
  induction ls generalizing c with
  | nil => exact ⟨c, rfl, h⟩
  | cons l ls ih =>
    obtain ⟨hbefore, hmade, hrest⟩ := h
    obtain ⟨c₁, hfront, hback⟩ := ih hrest
    exact ⟨c₁, ⟨hbefore, hmade, hfront⟩, hback⟩

end Linked

namespace Run

def result (x : Run (StateM σ) α) (w : World σ) : Except Halt α :=
  (outcome x w).1.1

/-- The world that a computation leaves behind, be it that it returns or halts. -/
def after (x : Run (StateM σ) α) (w : World σ) : World σ :=
  ((outcome x w).1.2, (outcome x w).2)

variable (x : Run (StateM σ) α) (f : α → Run (StateM σ) β) (w : World σ)

lemma result_bind :
    result (x >>= f) w =
      match result x w with
      | .ok a => result (f a) (after x w)
      | .error e => .error e := by
  unfold result after
  rw [outcome_bind]
  rcases outcome x w with ⟨⟨⟨e⟩ | ⟨a⟩, s⟩, fs⟩ <;> rfl

lemma after_bind :
    after (x >>= f) w =
      match result x w with
      | .ok a => after (f a) (after x w)
      | .error _ => after x w := by
  unfold result after
  rw [outcome_bind]
  rcases outcome x w with ⟨⟨⟨e⟩ | ⟨a⟩, s⟩, fs⟩ <;> rfl

lemma result_adapt (g : Halt → Halt) :
    result (ExceptT.adapt g x) w = (result x w).mapError g := by
  unfold result
  rw [outcome_adapt]
  rcases outcome x w with ⟨⟨⟨e⟩ | ⟨a⟩, s⟩, fs⟩ <;> rfl

lemma after_adapt (g : Halt → Halt) : after (ExceptT.adapt g x) w = after x w := by
  unfold after
  rw [outcome_adapt]
  rcases outcome x w with ⟨⟨⟨e⟩ | ⟨a⟩, s⟩, fs⟩ <;> rfl

/-- The loads of what follows a computation; if it halts there are none. -/
def loadsThen (log : α → World σ → List Load) : List Load :=
  match result x w with
  | .ok a => log a (after x w)
  | .error _ => []

end Run

/-- Whether a computation makes the loads of a log. -/
def Logs (files : FileAccess (StateM σ)) (x : Run (StateM σ) α) (log : World σ → List Load) :
    Prop :=
  ∀ w, Linked files w.1.cache (log w) (Run.after x w).1.cache

namespace Logs

variable {files : FileAccess (StateM σ)} {x : Run (StateM σ) α} {log : World σ → List Load}

lemma nil (h : ∀ w, (Run.after x w).1.cache = w.1.cache) : Logs files x fun _ => [] :=
  fun w => (h w).symm

lemma bind (hx : Logs files x log) {f : α → Run (StateM σ) β} {later : α → World σ → List Load}
    (hf : ∀ a, Logs files (f a) (later a)) :
    Logs files (x >>= f) fun w => log w ++ Run.loadsThen x w later := by
  intro w
  dsimp only
  rw [Run.after_bind, Run.loadsThen]
  cases Run.result x w with
  | error e =>
    rw [List.append_nil]
    exact hx w
  | ok a => exact (hx w).append (hf a _)

lemma bind_nil (hx : Logs files x log) {f : α → Run (StateM σ) β}
    (hf : ∀ a, Logs files (f a) fun _ => []) : Logs files (x >>= f) log := by
  intro w
  rw [Run.after_bind]
  cases Run.result x w with
  | error e => exact hx w
  | ok a =>
    dsimp only
    rw [← show (Run.after x w).1.cache = _ from hf a _]
    exact hx w

lemma adapt (hx : Logs files x log) (g : Halt → Halt) : Logs files (ExceptT.adapt g x) log := by
  intro w
  rw [Run.after_adapt]
  exact hx w

end Logs

namespace Expansion

variable (files : FileAccess (StateM σ)) (r : RunRules)

/-- How the loads of a copybook are listed, beside its expander. -/
abbrev LoadLister (σ : Type) : Type :=
  List Inclusion → String → List Char → World σ → List Load

/-- The loads for a `COPY` directive: that of its copybook, if this is found and may be entered, and
then those that the copybook makes. -/
def bookLoads (inner : Option (LoadLister σ)) (stack : List Inclusion)
    (clause : CopyClause) (position : Option Position) (w : World σ) : List Load :=
  match (r.plan.find files clause.name clause.library position).run w.2 with
  | (.error _, _) => []
  | (.ok path, fs) =>
    let unit : Inclusion := ⟨clause.name, clause.library, some path⟩
    if stack.any fun i => i.sameUnit files.workDir unit then []
    else
      match inner with
      | none => []
      | some inner =>
        Load.inWorld files path r.encoding (w.1, fs) ::
          Run.loadsThen (loadBook files r path) (w.1, fs) (inner (stack ++ [unit]) path.render)

def itemLoads (expand : Option (Expander (StateM σ))) (inner : Option (LoadLister σ))
    (stack : List Inclusion) (t : TracedText) (p : Progress) : List Item → World σ → List Load
  | [], _ => []
  | item :: items, w =>
    (match item with
    | .copy keyword clause _ =>
      bookLoads files r inner stack clause (directivePosition? t keyword) w
    | _ => []) ++
    Run.loadsThen (carryOut files r expand stack t p item) w
      fun p => itemLoads expand inner stack t p items

/-- The loads of a unit whose copybooks may be nested `levels` deep below it. -/
def unitLoads : Nat → List Inclusion → SourceUnit → World σ → List Load
  | 0, stack, unit, w =>
    itemLoads files r none none stack unit.written Progress.initial
      (Item.ofText r.dialect (stack.length ≤ 1) unit.written.text) (warned unit w)
  | levels + 1, stack, unit, w =>
    let inner : LoadLister σ := fun stack name text w =>
      match SourceUnit.read r.toLineRules name text with
      | .ok unit => unitLoads levels stack unit w
      | .error _ => []
    itemLoads files r (below files r (levels + 1)) (some inner) stack unit.written Progress.initial
      (Item.ofText r.dialect (stack.length ≤ 1) unit.written.text) (warned unit w)

variable {files r}

lemma logs_pure (a : α) : Logs files (pure a : Run (StateM σ) α) fun _ => [] :=
  .nil fun _ => rfl

lemma logs_throw (e : Halt) : Logs files (throw e : Run (StateM σ) α) fun _ => [] :=
  .nil fun _ => rfl

lemma outcome_loadBook (path : Path) (w : World σ) :
    Run.outcome (loadBook files r path) w =
      (((Load.inWorld files path r.encoding w).result.mapError Halt.atStart,
        { w.1 with cache := (Load.inWorld files path r.encoding w).after }),
        ((w.1.cache.load files path r.encoding).run w.2).2) := by
  have hget : Run.outcome (get : Run (StateM σ) RunState) w = ((.ok w.1, w.1), w.2) := rfl
  have hload : Run.outcome (liftM (liftM (w.1.cache.load files path r.encoding) :
      StateT RunState (StateM σ) _) : Run (StateM σ) _) w =
      ((.ok ((w.1.cache.load files path r.encoding).run w.2).1, w.1),
        ((w.1.cache.load files path r.encoding).run w.2).2) := rfl
  unfold loadBook Load.inWorld
  rw [Run.outcome_bind, hget]
  dsimp only
  rw [Run.outcome_bind, hload]
  rcases (w.1.cache.load files path r.encoding).run w.2 with ⟨⟨result, cache⟩, fs⟩
  cases result <;> rfl

lemma logs_loadBook (path : Path) :
    Logs files (loadBook files r path) fun w => [Load.inWorld files path r.encoding w] := by
  intro w
  refine ⟨rfl, ⟨path, r.encoding, w, rfl⟩, ?_⟩
  rw [Run.after, outcome_loadBook]
  exact rfl

/-- Whether the loads of copybooks are listed as they are expanded. -/
inductive Listed (files : FileAccess (StateM σ)) :
    Option (Expander (StateM σ)) → Option (LoadLister σ) → Prop
  | none : Listed files none none
  | some {expand : Expander (StateM σ)} {inner : LoadLister σ}
      (logs : ∀ stack name text, Logs files (expand stack name text) (inner stack name text)) :
      Listed files (some expand) (some inner)

lemma logs_includeBook {expand : Option (Expander (StateM σ))} {inner : Option (LoadLister σ)}
    (h : Listed files expand inner) (stack : List Inclusion) (clause : CopyClause)
    (position : Option Position) :
    Logs files (includeBook files r expand stack clause position)
      (bookLoads files r inner stack clause position) := by
  intro w
  unfold includeBook bookLoads
  rcases hfind : (r.plan.find files clause.name clause.library position).run w.2 with ⟨found, fs⟩
  have hfirst : Returns (liftM (liftM (r.plan.find files clause.name clause.library position) :
      StateT RunState (StateM σ) _) : Run (StateM σ) _) w found (w.1, fs) :=
    Returns.lift_iff.mpr ⟨hfind, rfl⟩
  rw [Run.after_bind, Run.result, Run.after, show Run.outcome _ w = _ from hfirst]
  cases found with
  | error fault => exact logs_throw _ (w.1, fs)
  | ok path =>
    dsimp only
    by_cases hsame : (stack.any fun i =>
        i.sameUnit files.workDir ⟨clause.name, clause.library, some path⟩) = true
    · rw [if_pos hsame, if_pos hsame]
      exact logs_throw _ (w.1, fs)
    · rw [if_neg hsame, if_neg hsame]
      cases h with
      | none => exact logs_throw _ (w.1, fs)
      | some logs =>
        refine (logs_loadBook path).bind (fun text => ?_) (w.1, fs)
        exact (logs _ _ text).bind_nil fun book => logs_pure _

lemma logs_items {expand : Option (Expander (StateM σ))} {inner : Option (LoadLister σ)}
    (h : Listed files expand inner) (stack : List Inclusion) (t : TracedText) (items : List Item)
    (p : Progress) :
    Logs files (items.foldlM (carryOut files r expand stack t) p)
      (itemLoads files r expand inner stack t p items) := by
  induction items generalizing p with
  | nil => exact logs_pure p
  | cons item items ih =>
    rw [List.foldlM_cons]
    refine Logs.bind ?_ ih
    cases item with
    | kept start stop => exact logs_pure _
    | change effect => exact logs_pure _
    | malformed keyword defect => exact logs_throw _
    | copy keyword clause stop =>
      exact ((logs_includeBook h stack clause _).adapt _).bind_nil fun book => logs_pure _

lemma logs_document {expand : Option (Expander (StateM σ))} {inner : Option (LoadLister σ)}
    (h : Listed files expand inner) (stack : List Inclusion) (unit : SourceUnit) :
    Logs files (do
      modify fun s : RunState => { s with diagnostics := s.diagnostics ++ unit.diagnostics }
      return (← expandDocument files r expand stack unit.written).1)
      fun w => itemLoads files r expand inner stack unit.written Progress.initial
        (Item.ofText r.dialect (stack.length ≤ 1) unit.written.text) (warned unit w) := by
  intro w
  rw [Run.after_bind]
  have hrest := ((logs_items h stack unit.written
    (Item.ofText r.dialect (stack.length ≤ 1) unit.written.text) Progress.initial (r := r)).bind_nil
      fun p => logs_pure (p.finish, p.copies)).bind_nil fun result => logs_pure result.1
  exact hrest (warned unit w)

/-- Along the expansion of a unit the cache changes by the loads of the unit only. -/
theorem logs_expandUnit (levels : Nat) (stack : List Inclusion) (unit : SourceUnit) :
    Logs files (expandUnit files r levels stack unit) (unitLoads files r levels stack unit) := by
  induction levels generalizing stack unit with
  | zero => exact logs_document .none stack unit
  | succ levels ih =>
    -- A copybook that cannot be read into lines halts before it loads anything.
    refine logs_document (.some fun inner name text => ?_) stack unit
    unfold readUnit
    cases SourceUnit.read r.toLineRules name text with
    | error fault => exact logs_throw _
    | ok unit => exact ih inner unit

end Expansion

end CobolText
