import Concordia.Lib.Bfs
import Concordia.Modes.Statements

/-!
# Removing what is not reached

`remove_unreachable_basic_blocks` drops the blocks of a body that its first label does not
lead to, and the functions that no call names. The calls are collected from the whole
bodies, before anything is dropped: a call in a dead block or in a dead function keeps the
function it names. `run_directives` says what the pass keeps, and `run_exact_iff` when that
is what the kernels need.
-/

namespace Concordia.Unreachable

open Concordia.Lib List
open Concordia.Modes (Label Statement Method Directive Failure)

variable {ι : Type}

/-! ## The pass -/

/-- The graph of one body. A node is the label it stands for. -/
structure ControlFlowGraph where
  nodes : List Label
  edges : List (Label × Label)

variable {l : Label} {cfg : ControlFlowGraph}

namespace ControlFlowGraph

def new : ControlFlowGraph := ⟨[], []⟩

def addOrGetNode (cfg : ControlFlowGraph) (id : Label) : ControlFlowGraph :=
  if id ∈ cfg.nodes then cfg else { cfg with nodes := id :: cfg.nodes }

def addBranch (cfg : ControlFlowGraph) (source target : Label) : ControlFlowGraph :=
  { cfg.addOrGetNode target with edges := (source, target) :: cfg.edges }

@[simp] theorem addOrGetNode_edges (cfg : ControlFlowGraph) (id : Label) :
    (cfg.addOrGetNode id).edges = cfg.edges := by
  unfold addOrGetNode
  split <;> rfl

@[simp] theorem mem_addOrGetNode {id : Label} :
    l ∈ (cfg.addOrGetNode id).nodes ↔ l = id ∨ l ∈ cfg.nodes := by
  unfold addOrGetNode
  split
  · rename_i hid
    exact ⟨.inr, fun h => h.elim (fun heq => heq ▸ hid) fun hl => hl⟩
  · exact mem_cons

@[simp] theorem mem_addBranch {source target : Label} :
    l ∈ (cfg.addBranch source target).nodes ↔ l = target ∨ l ∈ cfg.nodes :=
  mem_addOrGetNode

@[simp] theorem addBranch_edges (cfg : ControlFlowGraph) (source target : Label) :
    (cfg.addBranch source target).edges = (source, target) :: cfg.edges := rfl

end ControlFlowGraph

/-- The state of the first walk over a body. -/
structure Scan where
  cfg : ControlFlowGraph
  currentBb : Label
  reachableFuncs : List Label

/-- The first walk: the jumps of the block, and the functions called. -/
def Scan.statement (scan : Scan) : Statement ι → Except Failure Scan
  | .label l => .ok { scan with cfg := scan.cfg.addOrGetNode l, currentBb := l }
  | .conditional _ ifTrue ifFalse =>
    .ok { scan with
      cfg := (scan.cfg.addBranch scan.currentBb ifTrue).addBranch scan.currentBb ifFalse }
  | .bra target => .ok { scan with cfg := scan.cfg.addBranch scan.currentBb target }
  | .functionPointer _ => .error .todo
  | .call func _ => .ok { scan with reachableFuncs := func :: scan.reachableFuncs }
  | _ => .ok scan

/-- A label decides about the statements up to the next one. -/
def visitedAfter (cfg : ControlFlowGraph) (discovered : List Label) (visited : Bool) :
    Statement ι → Except Failure Bool
  | .label l => if l ∈ cfg.nodes then .ok (decide (l ∈ discovered)) else .error .unreachable
  | _ => .ok visited

/-- The second walk, `try_filter_to_vec`. -/
def tryFilter (cfg : ControlFlowGraph) (discovered : List Label) :
    Bool → List (Statement ι) → Except Failure (List (Statement ι))
  | _, [] => .ok []
  | visited, s :: rest => do
    let visited ← visitedAfter cfg discovered visited s
    let kept ← tryFilter cfg discovered visited rest
    .ok (if visited then s :: kept else kept)

section

-- `Bfs`, of the graph library
variable (search : Search Label)

/-- One body, which must start with a label. -/
def runBody (reachableFuncs : List Label) :
    List (Statement ι) → Except Failure (List (Statement ι) × List Label)
  | .label first :: rest => do
    let scan ← rest.foldlM Scan.statement
      ⟨ControlFlowGraph.new.addOrGetNode first, first, reachableFuncs⟩
    let kept ← tryFilter scan.cfg (search.find scan.cfg.edges first) true (.label first :: rest)
    .ok (kept, scan.reachableFuncs)
  | _ => .error .unreachable

def runDirective (reachableFuncs : List Label) :
    Directive ι → Except Failure (Directive ι × List Label)
  | .method ⟨name, isKernel, modes, some body⟩ => do
    let (body, reachableFuncs) ← runBody search reachableFuncs body
    .ok (.method ⟨name, isKernel, modes, some body⟩, reachableFuncs)
  | directive => .ok (directive, reachableFuncs)

def runDirectives :
    List Label → List (Directive ι) → Except Failure (List (Directive ι) × List Label)
  | reachableFuncs, [] => .ok ([], reachableFuncs)
  | reachableFuncs, directive :: rest => do
    let (directive, reachableFuncs) ← runDirective search reachableFuncs directive
    let (rest, reachableFuncs) ← runDirectives reachableFuncs rest
    .ok (directive :: rest, reachableFuncs)

/-- The last filter: kernels, variables and functions that a call names. -/
def isKept (reachableFuncs : List Label) : Directive ι → Bool
  | .globalVariable _ => true
  | .method m => m.isKernel || decide (m.name ∈ reachableFuncs)

def run (directives : List (Directive ι)) : Except Failure (List (Directive ι)) := do
  let (directives, reachableFuncs) ← runDirectives search [] directives
  .ok (directives.filter (isKept reachableFuncs))

end

/-! ## Modules made of blocks -/

/-- The statement may stand inside a block. -/
def inBlock : Statement ι → Bool
  | .label _ | .functionPointer _ => false
  | _ => true

def jumps : Statement ι → List Label
  | .bra target => [target]
  | .conditional _ ifTrue ifFalse => [ifTrue, ifFalse]
  | _ => []

/-- The function that a statement calls. -/
def callee? : Statement ι → Option Label
  | .call func _ => some func
  | _ => none

structure Block (ι : Type) where
  label : Label
  code : List (Statement ι)
  inside : ∀ s ∈ code, inBlock s = true

namespace Block

def statements (b : Block ι) : List (Statement ι) := .label b.label :: b.code

def successors (b : Block ι) : List Label := b.code.flatMap jumps

/-- The functions that the block calls. -/
def callees (b : Block ι) : List Label := b.code.filterMap callee?

end Block

/-- A method with a body. -/
structure Routine (ι : Type) where
  name : Label
  isKernel : Bool
  modes : (F : Modes.Family) → Modes.Width → F.Value
  firstBlock : Block ι
  otherBlocks : List (Block ι)

namespace Routine

def blocks (r : Routine ι) : List (Block ι) := r.firstBlock :: r.otherBlocks

def method (r : Routine ι) : Method ι :=
  ⟨r.name, r.isKernel, r.modes, some (r.blocks.flatMap Block.statements)⟩

def Leads (r : Routine ι) (l l' : Label) : Prop := ∃ b ∈ r.blocks, b.label = l ∧ l' ∈ b.successors

/-- The first label leads to this one. -/
def Live (r : Routine ι) (l : Label) : Prop := Relation.ReflTransGen r.Leads r.firstBlock.label l

open Classical in
/-- The routine without its dead blocks. -/
noncomputable def trim (r : Routine ι) : Routine ι :=
  { r with otherBlocks := r.otherBlocks.filter fun b => r.Live b.label }

end Routine

inductive Item (ι : Type) where
  | routine (r : Routine ι)
  | declaration (name : Label) (isKernel : Bool)
    (modes : (F : Modes.Family) → Modes.Width → F.Value)
  | globalVariable (details : ι)

namespace Item

def directive : Item ι → Directive ι
  | .routine r => .method r.method
  | .declaration name isKernel modes => .method ⟨name, isKernel, modes, none⟩
  | .globalVariable details => .globalVariable details

noncomputable def trim : Item ι → Item ι
  | .routine r => .routine r.trim
  | item => item

/-- The item is kept whatever is called: a kernel or a variable. -/
def isRoot : Item ι → Bool
  | .routine r => r.isKernel
  | .declaration _ isKernel _ => isKernel
  | .globalVariable _ => true

/-- The name of a method. -/
def name? : Item ι → Option Label
  | .routine r => some r.name
  | .declaration name _ _ => some name
  | .globalVariable _ => none

end Item

/-- **A module in normal form**: bodies that are made of blocks and start with one; jumps
stay in the body, and every function called is a method of the module. -/
structure Module (ι : Type) where
  items : List (Item ι)
  inside : ∀ r, .routine r ∈ items → ∀ b ∈ r.blocks, ∀ l ∈ b.successors,
    l ∈ r.blocks.map Block.label
  declared : ∀ r, .routine r ∈ items → ∀ b ∈ r.blocks, ∀ f ∈ b.callees,
    ∃ item ∈ items, item.name? = some f

namespace Module

def directives (M : Module ι) : List (Directive ι) := M.items.map Item.directive

/-- A function that calls in live blocks lead to from some kernel. -/
inductive Reached (M : Module ι) : Label → Prop
  | kernel {r : Routine ι} {b : Block ι} {f : Label} : .routine r ∈ M.items →
      r.isKernel = true → b ∈ r.blocks → r.Live b.label → f ∈ b.callees → Reached M f
  | function {r : Routine ι} {b : Block ι} {f : Label} : .routine r ∈ M.items →
      Reached M r.name → b ∈ r.blocks → r.Live b.label → f ∈ b.callees → Reached M f

/-- Some call of the module names the function, in whatever block. -/
def Called (M : Module ι) (f : Label) : Prop :=
  ∃ r, .routine r ∈ M.items ∧ ∃ b ∈ r.blocks, f ∈ b.callees

/-- Variables, kernels and the functions in `funcs`. -/
def Keeps (funcs : Label → Prop) (item : Item ι) : Prop :=
  item.isRoot = true ∨ ∃ f ∈ item.name?, funcs f

open Classical in
/-- The items with one of these names and the roots, without dead blocks. -/
noncomputable def restrict (M : Module ι) (funcs : Label → Prop) : List (Directive ι) :=
  (M.items.filter fun item => Keeps funcs item).map fun item => item.trim.directive

/-- What the kernels need: the functions reached, and the live blocks. -/
noncomputable def needed (M : Module ι) : List (Directive ι) := M.restrict M.Reached

end Module

/-- Every label that is jumped to is in the body, and every function called is there. -/
structure Closed (directives : List (Directive ι)) : Prop where
  labels : ∀ m body, .method m ∈ directives → m.body = some body →
    ∀ s ∈ body, ∀ l ∈ jumps s, .label l ∈ body
  functions : ∀ m body, .method m ∈ directives → m.body = some body →
    ∀ s ∈ body, ∀ f ∈ callee? s, ∃ m', .method m' ∈ directives ∧ m'.name = f

/-! ## The first walk -/

variable {s : Statement ι}

/-- A statement of a block adds its jumps and its call. -/
theorem statement_inBlock (h : inBlock s = true) (scan : Scan) :
    ∃ scan', scan.statement s = .ok scan' ∧ scan'.currentBb = scan.currentBb ∧
      (∀ e, e ∈ scan'.cfg.edges ↔ e ∈ scan.cfg.edges ∨ e.1 = scan.currentBb ∧ e.2 ∈ jumps s) ∧
      (∀ f, f ∈ scan'.reachableFuncs ↔ f ∈ scan.reachableFuncs ∨ f ∈ callee? s) ∧
      ∀ l ∈ scan.cfg.nodes, l ∈ scan'.cfg.nodes := by
  cases s with
  | label l => cases h
  | functionPointer details => cases h
  | bra target =>
    refine ⟨_, rfl, rfl, fun e => ?_, fun f => by simp [callee?], fun l hl => by simp [hl]⟩
    simp [jumps, Prod.ext_iff, or_comm]
  | conditional predicate ifTrue ifFalse =>
    refine ⟨_, rfl, rfl, fun e => ?_, fun f => by simp [callee?], fun l hl => by simp [hl]⟩
    simp only [ControlFlowGraph.addBranch_edges, mem_cons, Prod.ext_iff, jumps,
      not_mem_nil]
    tauto
  | call func details =>
    refine ⟨_, rfl, rfl, fun e => by simp [jumps], fun f => ?_, fun l hl => hl⟩
    simp [callee?, or_comm, eq_comm]
  | ret | retValue | instruction | fpModeRequired | setMode | other =>
    exact ⟨scan, rfl, rfl, fun e => by simp [jumps], fun f => by simp [callee?], fun l hl => hl⟩

variable {code : List (Statement ι)}

/-- The statements of a block, after its label. -/
theorem foldlM_code (h : ∀ s ∈ code, inBlock s = true) (scan : Scan) :
    ∃ scan', code.foldlM Scan.statement scan = .ok scan' ∧ scan'.currentBb = scan.currentBb ∧
      (∀ e, e ∈ scan'.cfg.edges ↔
        e ∈ scan.cfg.edges ∨ e.1 = scan.currentBb ∧ e.2 ∈ code.flatMap jumps) ∧
      (∀ f, f ∈ scan'.reachableFuncs ↔ f ∈ scan.reachableFuncs ∨ f ∈ code.filterMap callee?) ∧
      ∀ l ∈ scan.cfg.nodes, l ∈ scan'.cfg.nodes := by
  induction code generalizing scan with
  | nil => exact ⟨scan, rfl, rfl, by simp, by simp, fun l hl => hl⟩
  | cons s code ih =>
    obtain ⟨scan₁, hs, hbb₁, hedges₁, hfuncs₁, hnodes₁⟩ :=
      statement_inBlock (h s mem_cons_self) scan
    obtain ⟨scan₂, hcode, hbb₂, hedges₂, hfuncs₂, hnodes₂⟩ :=
      ih (fun s' hs' => h s' (mem_cons_of_mem s hs')) scan₁
    refine ⟨scan₂, ?_, hbb₂.trans hbb₁, fun e => ?_, fun f => ?_,
      fun l hl => hnodes₂ l (hnodes₁ l hl)⟩
    · rw [foldlM_cons, hs]
      exact hcode
    · rw [hedges₂, hedges₁, hbb₁, flatMap_cons, mem_append]
      tauto
    · rw [hfuncs₂, hfuncs₁, or_assoc, mem_filterMap, mem_filterMap]
      simp only [mem_cons, exists_eq_or_imp]
      rfl

/-- The blocks after the first one. -/
theorem foldlM_blocks (blocks : List (Block ι)) (scan : Scan) :
    ∃ scan', (blocks.flatMap Block.statements).foldlM Scan.statement scan = .ok scan' ∧
      (∀ e, e ∈ scan'.cfg.edges ↔
        e ∈ scan.cfg.edges ∨ ∃ b ∈ blocks, e.1 = b.label ∧ e.2 ∈ b.successors) ∧
      (∀ f, f ∈ scan'.reachableFuncs ↔
        f ∈ scan.reachableFuncs ∨ ∃ b ∈ blocks, f ∈ b.callees) ∧
      (∀ l ∈ scan.cfg.nodes, l ∈ scan'.cfg.nodes) ∧ ∀ b ∈ blocks, b.label ∈ scan'.cfg.nodes := by
  induction blocks generalizing scan with
  | nil => exact ⟨scan, rfl, by simp, by simp, fun l hl => hl, by simp⟩
  | cons b blocks ih =>
    -- The label opens the block, its code is walked, then the other blocks follow.
    obtain ⟨scan₁, hcode, -, hedges₁, hfuncs₁, hnodes₁⟩ := foldlM_code b.inside
      { scan with cfg := scan.cfg.addOrGetNode b.label, currentBb := b.label }
    obtain ⟨scan₂, hrest, hedges₂, hfuncs₂, hnodes₂, hlabels⟩ := ih scan₁
    simp only [ControlFlowGraph.addOrGetNode_edges, ControlFlowGraph.mem_addOrGetNode]
      at hedges₁ hnodes₁
    refine ⟨scan₂, ?_, fun e => ?_, fun f => ?_, fun l hl => hnodes₂ l (hnodes₁ l (.inr hl)), ?_⟩
    · rw [flatMap_cons, foldlM_append, Block.statements, foldlM_cons]
      change ((b.code.foldlM Scan.statement _) >>= fun s =>
        (blocks.flatMap Block.statements).foldlM Scan.statement s) = .ok scan₂
      rw [hcode]
      exact hrest
    · rw [hedges₂, hedges₁, or_assoc]
      simp only [mem_cons, exists_eq_or_imp]
      rfl
    · rw [hfuncs₂, hfuncs₁, or_assoc]
      simp only [mem_cons, exists_eq_or_imp]
      rfl
    · intro b' hb'
      rcases mem_cons.mp hb' with rfl | hb'
      · exact hnodes₂ _ (hnodes₁ _ (.inl rfl))
      · exact hlabels b' hb'

/-! ## The second walk -/

theorem tryFilter_code (cfg : ControlFlowGraph) (discovered : List Label) (visited : Bool)
    (h : ∀ s ∈ code, inBlock s = true) (rest : List (Statement ι)) :
    tryFilter cfg discovered visited (code ++ rest) =
      (tryFilter cfg discovered visited rest).map
        fun kept => if visited then code ++ kept else kept := by
  induction code with
  | nil =>
    rw [nil_append]
    cases tryFilter cfg discovered visited rest <;> simp [Except.map]
  | cons s code ih =>
    have hvisited : visitedAfter cfg discovered visited s = .ok visited := by
      have hs := h s mem_cons_self
      cases s <;> first | rfl | cases hs
    rw [cons_append, tryFilter, hvisited]
    change (tryFilter cfg discovered visited (code ++ rest) >>= fun kept =>
      .ok (if visited then s :: kept else kept)) = _
    rw [ih fun s' hs' => h s' (mem_cons_of_mem s hs')]
    cases tryFilter cfg discovered visited rest <;> cases visited <;> rfl

variable {blocks : List (Block ι)}

/-- The blocks with a label that was discovered are kept, the others dropped. -/
theorem tryFilter_blocks (discovered : List Label) (h : ∀ b ∈ blocks, b.label ∈ cfg.nodes)
    (visited : Bool) :
    tryFilter cfg discovered visited (blocks.flatMap Block.statements) =
      .ok ((blocks.filter fun b => decide (b.label ∈ discovered)).flatMap Block.statements) := by
  induction blocks generalizing visited with
  | nil => rfl
  | cons b blocks ih =>
    have hvisited : visitedAfter cfg discovered visited (.label b.label : Statement ι) =
        .ok (decide (b.label ∈ discovered)) := if_pos (h b mem_cons_self)
    rw [flatMap_cons, Block.statements, cons_append, tryFilter, hvisited]
    change (tryFilter cfg discovered (decide (b.label ∈ discovered))
      (b.code ++ blocks.flatMap Block.statements) >>= fun kept =>
        .ok (if decide (b.label ∈ discovered) then .label b.label :: kept else kept)) = _
    rw [tryFilter_code _ _ _ b.inside, ih fun b' hb' => h b' (mem_cons_of_mem b hb')]
    by_cases hb : b.label ∈ discovered
    · simp [Except.map, bind, Except.bind, hb, Block.statements]
    · simp [Except.map, bind, Except.bind, hb]

/-! ## What the pass keeps -/

variable {r : Routine ι} (search : Search Label)

/-- The search finds the live blocks. -/
theorem mem_find_iff_live {edges : List (Label × Label)}
    (h : ∀ e, e ∈ edges ↔ ∃ b ∈ r.blocks, e.1 = b.label ∧ e.2 ∈ b.successors) (l : Label) :
    l ∈ search.find edges r.firstBlock.label ↔ r.Live l := by
  have hleads : (fun l l' => (l, l') ∈ edges) = r.Leads := by
    funext l l'
    rw [h, eq_iff_iff]
    exact exists_congr fun b => and_congr_right fun _ => and_congr_left' eq_comm
  rw [search.mem_find, hleads, Routine.Live]

/-- The body without its dead blocks, and its calls collected. -/
theorem runBody_blocks (r : Routine ι) (funcs : List Label) :
    ∃ funcs', runBody search funcs (r.blocks.flatMap Block.statements) =
        .ok (r.trim.blocks.flatMap Block.statements, funcs') ∧
      ∀ f, f ∈ funcs' ↔ f ∈ funcs ∨ ∃ b ∈ r.blocks, f ∈ b.callees := by
  obtain ⟨scan, hscan, hedges, hfuncs, -, hlabels⟩ := foldlM_blocks r.blocks
    ⟨ControlFlowGraph.new, r.firstBlock.label, funcs⟩
  refine ⟨scan.reachableFuncs, ?_, hfuncs⟩
  have hlive : ∀ l, l ∈ search.find scan.cfg.edges r.firstBlock.label ↔ r.Live l :=
    mem_find_iff_live search fun e => by
      rw [hedges]
      simp [ControlFlowGraph.new]
  have hfilter : tryFilter scan.cfg (search.find scan.cfg.edges r.firstBlock.label) true
      (r.blocks.flatMap Block.statements) = .ok (r.trim.blocks.flatMap Block.statements) := by
    rw [tryFilter_blocks _ hlabels]
    have hfirst : r.firstBlock.label ∈ search.find scan.cfg.edges r.firstBlock.label :=
      (hlive _).mpr .refl
    rw [Routine.blocks, filter_cons_of_pos (by simpa using hfirst), Routine.blocks,
      Routine.trim]
    congr 3
    refine filter_congr fun b _ => ?_
    rw [decide_eq_decide]
    exact hlive b.label
  -- The label of the first block has the effect that the walk starts from.
  change ((r.firstBlock.code ++ r.otherBlocks.flatMap Block.statements).foldlM Scan.statement _ >>=
    fun scan => tryFilter scan.cfg (search.find scan.cfg.edges r.firstBlock.label) true
      (r.blocks.flatMap Block.statements) >>= fun kept => .ok (kept, scan.reachableFuncs)) = _
  change ((r.firstBlock.code ++ r.otherBlocks.flatMap Block.statements).foldlM Scan.statement _) = _
    at hscan
  rw [hscan]
  change (tryFilter scan.cfg (search.find scan.cfg.edges r.firstBlock.label) true
      (r.blocks.flatMap Block.statements) >>= fun kept => .ok (kept, scan.reachableFuncs)) = _
  rw [hfilter]
  rfl

theorem runDirective_directive (item : Item ι) (funcs : List Label) :
    ∃ funcs', runDirective search funcs item.directive = .ok (item.trim.directive, funcs') ∧
      ∀ f, f ∈ funcs' ↔
        f ∈ funcs ∨ ∃ r, item = .routine r ∧ ∃ b ∈ r.blocks, f ∈ b.callees := by
  cases item with
  | globalVariable details => exact ⟨funcs, rfl, by simp⟩
  | declaration name isKernel modes => exact ⟨funcs, rfl, by simp⟩
  | routine r =>
    obtain ⟨funcs', hrun, hfuncs⟩ := runBody_blocks search r funcs
    refine ⟨funcs', ?_, fun f => by simp [hfuncs]⟩
    change (runBody search funcs (r.blocks.flatMap Block.statements) >>= fun x =>
      .ok (Directive.method ⟨r.name, r.isKernel, r.modes, some x.1⟩, x.2)) = _
    rw [hrun]
    rfl

/-- All calls are collected, those of dead blocks and of dead functions too. -/
theorem runDirectives_items (items : List (Item ι)) (funcs : List Label) :
    ∃ funcs', runDirectives search funcs (items.map Item.directive) =
        .ok (items.map fun item => item.trim.directive, funcs') ∧
      ∀ f, f ∈ funcs' ↔
        f ∈ funcs ∨ ∃ r, .routine r ∈ items ∧ ∃ b ∈ r.blocks, f ∈ b.callees := by
  induction items generalizing funcs with
  | nil => exact ⟨funcs, rfl, by simp⟩
  | cons item items ih =>
    obtain ⟨funcs₁, hitem, hfuncs₁⟩ := runDirective_directive search item funcs
    obtain ⟨funcs₂, hitems, hfuncs₂⟩ := ih funcs₁
    refine ⟨funcs₂, ?_, fun f => ?_⟩
    · rw [map_cons, runDirectives, hitem]
      change (runDirectives search funcs₁ (items.map Item.directive) >>= fun x =>
        .ok (item.trim.directive :: x.1, x.2)) = _
      rw [hitems]
      rfl
    · rw [hfuncs₂, hfuncs₁, or_assoc]
      simp only [mem_cons, or_and_right, exists_or, eq_comm]

theorem isKept_trim (funcs : List Label) (item : Item ι) :
    isKept funcs item.trim.directive = true ↔ Module.Keeps (· ∈ funcs) item := by
  cases item <;>
    simp [isKept, Item.trim, Item.directive, Module.Keeps, Item.isRoot, Item.name?, Routine.method,
      Routine.trim]

open Classical in
/-- **What the pass keeps.** It never fails on a module in normal form, drops the dead
blocks, and keeps the functions that some call names. -/
theorem run_directives (M : Module ι) :
    run search M.directives = .ok (M.restrict M.Called) := by
  obtain ⟨funcs, hrun, hfuncs⟩ := runDirectives_items search M.items []
  have hcalled : ∀ f, f ∈ funcs ↔ M.Called f := by
    intro f
    rw [hfuncs]
    simp [Module.Called]
  unfold run
  rw [Module.directives, hrun]
  change Except.ok ((M.items.map fun item => item.trim.directive).filter (isKept funcs)) = _
  rw [filter_map, Module.restrict]
  congr 2
  refine filter_congr fun item _ => ?_
  rw [Function.comp_apply, Bool.eq_iff_iff, isKept_trim, decide_eq_true_iff]
  simp only [Module.Keeps, hcalled]

/-! ## What the kernels need -/

variable {f : Label}

namespace Module

variable {M : Module ι}

/-- Every call that is needed is a call. -/
theorem Reached.called (h : M.Reached f) : M.Called f := by
  cases h with
  | kernel hr _ hb _ hf => exact ⟨_, hr, _, hb, hf⟩
  | function hr _ hb _ hf => exact ⟨_, hr, _, hb, hf⟩

/-- A routine that is kept reaches what its live blocks call. -/
theorem Reached.of_keeps {b : Block ι} (hr : .routine r ∈ M.items)
    (hkeeps : Keeps M.Reached (.routine r)) (hb : b ∈ r.blocks) (hlive : r.Live b.label)
    (hf : f ∈ b.callees) : M.Reached f := by
  rcases hkeeps with hkernel | ⟨name, hname, hreached⟩
  · exact .kernel hr hkernel hb hlive hf
  · cases hname
    exact .function hr hreached hb hlive hf

theorem mem_trim_blocks {b : Block ι} :
    b ∈ r.trim.blocks ↔ b ∈ r.blocks ∧ (b = r.firstBlock ∨ r.Live b.label) := by
  simp only [Routine.blocks, Routine.trim, mem_cons, mem_filter, decide_eq_true_iff]
  tauto

theorem live_of_mem_trim {b : Block ι} (h : b ∈ r.trim.blocks) : b ∈ r.blocks ∧ r.Live b.label := by
  obtain ⟨hb, rfl | hlive⟩ := mem_trim_blocks.mp h
  · exact ⟨hb, .refl⟩
  · exact ⟨hb, hlive⟩

open Classical in
/-- A method with a body in a restricted module is a trimmed routine. -/
theorem method_mem_restrict {funcs : Label → Prop} {m : Method ι} {body : List (Statement ι)}
    (h : .method m ∈ M.restrict funcs) (hbody : m.body = some body) :
    ∃ r, .routine r ∈ M.items ∧ Keeps funcs (.routine r) ∧
      body = r.trim.blocks.flatMap Block.statements := by
  obtain ⟨item, hitem, heq⟩ := mem_map.mp h
  rw [mem_filter, decide_eq_true_iff] at hitem
  cases item with
  | globalVariable details => cases heq
  | declaration name isKernel modes =>
    cases heq
    cases hbody
  | routine r =>
    cases heq
    cases hbody
    exact ⟨r, hitem.1, hitem.2, rfl⟩

/-- The jumps of a body are those of its blocks. -/
theorem exists_block_of_jump (hs : s ∈ blocks.flatMap Block.statements) (hl : l ∈ jumps s) :
    ∃ b ∈ blocks, l ∈ b.successors := by
  obtain ⟨b, hb, hs⟩ := mem_flatMap.mp hs
  rcases mem_cons.mp hs with rfl | hs
  · cases hl
  · exact ⟨b, hb, mem_flatMap.mpr ⟨s, hs, hl⟩⟩

/-- The calls of a body are those of its blocks. -/
theorem exists_block_of_call (hs : s ∈ blocks.flatMap Block.statements) (hf : f ∈ callee? s) :
    ∃ b ∈ blocks, f ∈ b.callees := by
  obtain ⟨b, hb, hs⟩ := mem_flatMap.mp hs
  rcases mem_cons.mp hs with rfl | hs
  · cases hf
  · exact ⟨b, hb, mem_filterMap.mpr ⟨s, hs, hf⟩⟩

open Classical in
/-- What the kernels need names nothing else. -/
theorem closed_needed (M : Module ι) : Closed M.needed where
  labels := by
    intro m body hm hbody s hs l hl
    obtain ⟨r, hr, -, rfl⟩ := method_mem_restrict hm hbody
    obtain ⟨b, hb, hl⟩ := exists_block_of_jump hs hl
    obtain ⟨hb, hlive⟩ := live_of_mem_trim hb
    -- The block jumped to is in the body, and live because this one is.
    obtain ⟨b', hb', rfl⟩ := mem_map.mp (M.inside r hr b hb l hl)
    have hlive' : r.Live b'.label := hlive.tail ⟨b, hb, rfl, hl⟩
    exact mem_flatMap.mpr
      ⟨b', mem_trim_blocks.mpr ⟨hb', .inr hlive'⟩, mem_cons_self⟩
  functions := by
    intro m body hm hbody s hs f hf
    obtain ⟨r, hr, hkeeps, rfl⟩ := method_mem_restrict hm hbody
    obtain ⟨b, hb, hf⟩ := exists_block_of_call hs hf
    obtain ⟨hb, hlive⟩ := live_of_mem_trim hb
    have hreached : M.Reached f := .of_keeps hr hkeeps hb hlive hf
    obtain ⟨item, hitem, hname⟩ := M.declared r hr b hb f hf
    have hmem : item.trim.directive ∈ M.needed :=
      mem_map.mpr ⟨item, mem_filter.mpr
        ⟨hitem, decide_eq_true_iff.mpr (.inr ⟨f, hname, hreached⟩)⟩, rfl⟩
    cases item with
    | globalVariable details => cases hname
    | declaration name isKernel modes =>
      cases hname
      exact ⟨_, hmem, rfl⟩
    | routine r =>
      cases hname
      exact ⟨_, hmem, rfl⟩

open Classical in
/-- Two restrictions agree when they keep the same items, the smaller one being given. -/
theorem restrict_eq_iff {funcs funcs' : Label → Prop} (h : ∀ f, funcs f → funcs' f) :
    M.restrict funcs' = M.restrict funcs ↔
      ∀ item ∈ M.items, Keeps funcs' item → Keeps funcs item := by
  have hkeeps : ∀ item : Item ι, Keeps funcs item → Keeps funcs' item :=
    fun item hitem => hitem.imp_right fun ⟨f, hname, hf⟩ => ⟨f, hname, h f hf⟩
  constructor
  · intro heq item hitem hkept
    have hlength := congrArg List.length heq
    simp only [restrict, length_map] at hlength
    have hsub : (M.items.filter fun item => Keeps funcs item).Sublist
        (M.items.filter fun item => Keeps funcs' item) :=
      monotone_filter_right M.items fun item hi =>
        decide_eq_true (hkeeps item (of_decide_eq_true hi))
    have hfilter := hsub.eq_of_length hlength.symm
    have hmem : item ∈ M.items.filter fun item => Keeps funcs' item :=
      mem_filter.mpr ⟨hitem, decide_eq_true_iff.mpr hkept⟩
    rw [← hfilter, mem_filter, decide_eq_true_iff] at hmem
    exact hmem.2
  · intro hall
    unfold restrict
    congr 1
    refine filter_congr fun item hitem => ?_
    rw [Bool.eq_iff_iff, decide_eq_true_iff, decide_eq_true_iff]
    exact ⟨hall item hitem, hkeeps item⟩

end Module

/-- **Exactness.** The pass leaves what the kernels need, with nothing missing, when every
function that some call names, in whatever block, is one that the kernels reach. -/
theorem run_exact_iff (M : Module ι) :
    (run search M.directives = .ok M.needed ∧ Closed M.needed) ↔
      ∀ item ∈ M.items, item.isRoot = false → ∀ f ∈ item.name?, M.Called f → M.Reached f := by
  have hrun : run search M.directives = .ok M.needed ↔
      M.restrict M.Called = M.restrict M.Reached := by
    rw [run_directives, Except.ok.injEq, Module.needed]
  rw [and_iff_left M.closed_needed, hrun, Module.restrict_eq_iff fun f => Module.Reached.called]
  refine forall₂_congr fun item hitem => ?_
  constructor
  · intro h hroot f hname hcalled
    rcases h (.inr ⟨f, hname, hcalled⟩) with hroot' | ⟨f', hname', hreached⟩
    · rw [hroot] at hroot'
      cases hroot'
    · rw [Option.mem_def] at hname hname'
      rw [hname] at hname'
      cases hname'
      exact hreached
  · rintro h (hroot | ⟨f, hname, hcalled⟩)
    · exact .inl hroot
    · by_cases hroot : item.isRoot = true
      · exact .inl hroot
      · exact .inr ⟨f, hname, h (by simpa using hroot) f hname hcalled⟩

/-! ## A function that calls itself -/

/-- A kernel that only returns. -/
def idleKernel : Routine Unit :=
  ⟨1, true, fun _ _ => default, ⟨2, [.ret ()], by decide⟩, []⟩

/-- A function that nothing but itself calls. -/
def selfCaller : Routine Unit :=
  ⟨3, false, fun _ _ => default, ⟨4, [.call 3 (), .bra 5], by decide⟩, [⟨5, [.ret ()], by decide⟩]⟩

theorem mem_selfCalling {r : Routine Unit}
    (h : Item.routine r ∈ [.routine idleKernel, .routine selfCaller]) :
    r = idleKernel ∨ r = selfCaller := by
  simpa using h

def selfCalling : Module Unit where
  items := [.routine idleKernel, .routine selfCaller]
  inside := by
    intro r hr
    rcases mem_selfCalling hr with rfl | rfl <;> simp [Routine.blocks, idleKernel, selfCaller,
      Block.successors, jumps]
  declared := by
    intro r hr
    rcases mem_selfCalling hr with rfl | rfl <;> simp [Routine.blocks, idleKernel, selfCaller,
      Block.callees, callee?, Item.name?]

/-- No kernel reaches anything. -/
theorem not_reached_selfCalling (h : selfCalling.Reached f) : False := by
  induction h with
  | kernel hr hkernel hb _ hf =>
    rcases mem_selfCalling hr with rfl | rfl
    · rw [mem_singleton.mp hb] at hf
      cases hf
    · cases hkernel
  | function _ _ _ _ _ ih => exact ih

/-- The pass keeps the function that only calls itself. -/
theorem self_caller_kept :
    run breadthFirst selfCalling.directives = .ok selfCalling.directives ∧
      ¬ selfCalling.Reached 3 ∧
      run breadthFirst selfCalling.directives ≠ .ok selfCalling.needed := by
  have hrun : run breadthFirst selfCalling.directives = .ok selfCalling.directives := rfl
  refine ⟨hrun, not_reached_selfCalling, fun h => ?_⟩
  have hcalled : selfCalling.Called 3 :=
    ⟨selfCaller, mem_cons_of_mem _ mem_cons_self, selfCaller.firstBlock,
      mem_cons_self, mem_cons_self⟩
  rw [run_directives, Except.ok.injEq, Module.needed,
    Module.restrict_eq_iff fun f => Module.Reached.called] at h
  rcases h (.routine selfCaller) (mem_cons_of_mem _ mem_cons_self)
    (.inr ⟨3, rfl, hcalled⟩) with hroot | ⟨f, -, hreached⟩
  · cases hroot
  · exact not_reached_selfCalling hreached

end Concordia.Unreachable
