import CalcHeuristics.Proof.Printed
import CalcHeuristics.Proof.Sessions
import CalcHeuristics.Stdio.Align

/-!
# What a run leaves

Every call opens two streams and closes none, so a process that may hold `limit` of them gives both to its
first `limit / 2` functions only. Those are followed call by call: `Ends` says how a computation ends and
what its process has logged by then. A function that comes too late prints nothing, and ends the run if it
has a branch, which is printed to a null stream. `optOver_empty` puts the two parts together.
-/

namespace CalcHeuristics

open Stdio

/-! ### Streams for functions -/

section
variable {α β : Type}

/-- The functions whose calls are given both streams. -/
def served (cfg : Config) (functions : List α) : List α :=
  match cfg.maxOpen with
  | none => functions
  | some limit => functions.take (limit / 2)

/-- The functions called when no two streams are left. -/
def unserved (cfg : Config) (functions : List α) : List α :=
  match cfg.maxOpen with
  | none => []
  | some limit => functions.drop (limit / 2)

theorem served_append_unserved (cfg : Config) (functions : List α) :
    served cfg functions ++ unserved cfg functions = functions := by
  rw [served, unserved]
  cases cfg.maxOpen with
  | none => exact List.append_nil functions
  | some limit => exact List.take_append_drop (limit / 2) functions

theorem map_served (cfg : Config) (f : α → β) (functions : List α) :
    (served cfg functions).map f = served cfg (functions.map f) := by
  rw [served, served]
  cases cfg.maxOpen with
  | none => rfl
  | some limit => exact List.map_take

theorem map_unserved (cfg : Config) (f : α → β) (functions : List α) :
    (unserved cfg functions).map f = unserved cfg (functions.map f) := by
  rw [unserved, unserved]
  cases cfg.maxOpen with
  | none => rfl
  | some limit => exact List.map_drop

end

theorem forall_served_iff (cfg : Config) (M : Module) (P : AnalysedFunction → Prop) :
    (∀ f ∈ served cfg M.zipIdx, P f.1) ↔ ∀ f ∈ served cfg M, P f := by
  conv_rhs => rw [← List.zipIdx_map_fst 0 M, ← map_served]
  exact List.forall_mem_map.symm

theorem forall_unserved_iff (cfg : Config) (M : Module) (P : AnalysedFunction → Prop) :
    (∀ f ∈ unserved cfg M.zipIdx, P f.1) ↔ ∀ f ∈ unserved cfg M, P f := by
  conv_rhs => rw [← List.zipIdx_map_fst 0 M, ← map_unserved]
  exact List.forall_mem_map.symm

/-- Nothing ends the run: no branch of a function that has its streams faults, and no other function has a
branch. -/
def GoesThrough (cfg : Config) (M : Module) : Prop :=
  (∀ f ∈ served cfg M, ∀ b, Passes f.function b) ∧ ∀ f ∈ unserved cfg M, branchCount f = 0

/-- What ends the run, if anything does. -/
def runFault (cfg : Config) (M : Module) : Option Fault :=
  match printedFault (functionsPrinted (served cfg M.zipIdx)) with
  | some fault => some fault
  | none => if ∀ f ∈ unserved cfg M, branchCount f = 0 then none else some .nullStream

theorem runFault_eq_none_iff (cfg : Config) (M : Module) :
    runFault cfg M = none ↔ GoesThrough cfg M := by
  have hpasses : printedFault (functionsPrinted (served cfg M.zipIdx)) = none ↔ _ :=
    printedFault_functionsPrinted
  rw [forall_served_iff cfg M fun f => ∀ b, Passes f.function b] at hpasses
  rw [runFault, GoesThrough, ← hpasses]
  cases printedFault (functionsPrinted (served cfg M.zipIdx)) with
  | some fault => simp
  | none => simp

/-! ### Logs -/

/-- The two streams of a call on top of those opened before. -/
def callLog (before : Log CsvFile OutByte) (heuristicData trueProbData : List OutByte) :
    Log CsvFile OutByte :=
  before ++ [(.heuristics, heuristicData), (.trueProbability, trueProbData)]

def printedLog (functions : List Printed) : Log CsvFile OutByte :=
  functions.flatMap fun printed =>
    callLog [] (printed.rows .heuristics).flatten (printed.rows .trueProbability).flatten

theorem printedLog_concat (functions : List Printed) (printed : Printed) :
    printedLog (functions ++ [printed]) =
      callLog (printedLog functions) (printed.rows .heuristics).flatten
        (printed.rows .trueProbability).flatten := by
  simp [printedLog, callLog]

theorem printedLog_on (functions : List Printed) (file : CsvFile) :
    (printedLog functions).on file = functions.map fun printed => (printed.rows file).flatten := by
  induction functions with
  | nil => rfl
  | cons printed functions ih =>
      rw [printedLog, List.flatMap_cons, Log.on_append, ← printedLog, ih, List.map_cons]
      cases file <;> rfl

theorem length_printedLog (functions : List Printed) :
    (printedLog functions).length = 2 * functions.length := by
  induction functions with
  | nil => rfl
  | cons printed functions ih =>
      rw [printedLog, List.flatMap_cons, List.length_append, ← printedLog, ih, List.length_cons]
      simp [callLog]
      omega

/-- The computation ends with the given fault or none, and the process has logged what is given. -/
def Ends (cfg : Config) (log : Log CsvFile OutByte) (fault : Option Fault) :
    Tracked (Process CsvFile OutByte) → Prop
  | .ok p => fault = none ∧ Logged cfg p log
  | .error (f, p) => fault = some f ∧ Logged cfg p log

/-- The process, wherever the computation ends, holds a stream on the file. -/
def HasStream (file : CsvFile) : Tracked (Process CsvFile OutByte) → Prop
  | .ok p | .error (_, p) => ∃ s ∈ p.streams, s.file = file

/-! ### Calls that have their streams -/

section
variable {n : Nat} {F : Function n} {A : Analyses n} {cfg : Config} {index : Nat}
  {before : Log CsvFile OutByte} {p : Process CsvFile OutByte} {h t : List OutByte}

theorem logged_trueProbData (hp : Logged cfg p (callLog before h t)) (data : List OutByte) :
    Logged cfg (fwrite cfg p (before.length + 1) data) (callLog before h (t ++ data)) := by
  have hlast : Logged cfg (fwrite cfg p (before ++ [(CsvFile.heuristics, h)]).length data)
      (before ++ [(.heuristics, h)] ++ [(.trueProbability, t ++ data)]) :=
    Logged.fwrite data (by simp) (by simpa [callLog] using hp)
  simpa [callLog] using hlast

theorem logged_heuristicData (hp : Logged cfg p (callLog before h t)) (data : List OutByte) :
    Logged cfg (fwrite cfg p before.length data) (callLog before (h ++ data) t) :=
  Logged.fwrite data (by simp) hp

theorem writeBlock_ends (F : Function n) (A : Analyses n) (index : Nat)
    (hp : Logged cfg p (callLog before h t)) (b : Fin n) :
    Ends cfg
      (callLog before (h ++ ((blockPrinted F A index b).rows .heuristics).flatten)
        (t ++ ((blockPrinted F A index b).rows .trueProbability).flatten))
      (blockPrinted F A index b).fault
      (Tracked.writeBlock F A cfg index (some before.length) (some (before.length + 1)) p b) := by
  rw [blockPrinted, Tracked.writeBlock]
  cases F.branchInst b with
  | none => exact ⟨rfl, by simpa [Printed.rows] using hp⟩
  | some br =>
      have hprinted := logged_trueProbData hp
        ((trueProbText (A.getEdgeProbability b 0)).map (⟨·, ⟨index, b⟩⟩))
      dsimp only
      cases heuristicRow F A b br.takenSuccessor br.notTakenSuccessor with
      | error fault => exact ⟨rfl, by simpa [Printed.rows, Stopped.bytes] using hprinted⟩
      | ok row =>
          refine ⟨rfl, ?_⟩
          have hboth := logged_heuristicData hprinted (row.text.map (⟨·, ⟨index, b⟩⟩))
          simpa [Printed.rows, RowRecord.bytes, RowRecord.text] using hboth

theorem writeBlocks_ends (blocks : List (Fin n)) (hp : Logged cfg p (callLog before h t)) :
    Ends cfg
      (callLog before (h ++ ((blocksPrinted F A index blocks).rows .heuristics).flatten)
        (t ++ ((blocksPrinted F A index blocks).rows .trueProbability).flatten))
      (blocksPrinted F A index blocks).fault
      (blocks.foldlM (Tracked.writeBlock F A cfg index (some before.length)
        (some (before.length + 1))) p) := by
  induction blocks generalizing p h t with
  | nil => exact ⟨rfl, by simpa [blocksPrinted, Printed.rows] using hp⟩
  | cons b blocks ih =>
      have hb := writeBlock_ends F A index hp b
      rw [List.foldlM_cons, blocksPrinted]
      cases hrun : Tracked.writeBlock F A cfg index (some before.length)
          (some (before.length + 1)) p b with
      | error stopped =>
          obtain ⟨fault, q⟩ := stopped
          rw [hrun] at hb
          obtain ⟨s, hs, _⟩ := Option.map_eq_some_iff.1 hb.1
          rw [Printed.andThen_of_stopped hs]
          exact hb
      | ok q =>
          rw [hrun] at hb
          obtain ⟨hfault, hq⟩ := hb
          have hrest := ih hq
          rw [List.append_assoc, List.append_assoc, ← List.flatten_append, ← List.flatten_append,
            ← Printed.rows_andThen_of_passed (Printed.fault_eq_none_iff.1 hfault),
            ← Printed.rows_andThen_of_passed (Printed.fault_eq_none_iff.1 hfault)] at hrest
          rw [Printed.fault, Printed.andThen_of_passed (Printed.fault_eq_none_iff.1 hfault)] at *
          exact hrest

/-- With room for both streams, a function prints its rows to them. -/
theorem runOnFunction_ends (F : Function n) (A : Analyses n) (index : Nat)
    (hroom : cfg.maxOpen.all (before.length + 1 < ·) = true) (hp : Logged cfg p before) :
    Ends cfg
      (callLog before ((functionPrinted F A index).rows .heuristics).flatten
        ((functionPrinted F A index).rows .trueProbability).flatten)
      (functionPrinted F A index).fault (Tracked.runOnFunction F A cfg index p) := by
  have hroom' : cfg.maxOpen.all (before.length < ·) = true := by
    cases hmax : cfg.maxOpen with
    | none => rfl
    | some limit =>
        rw [hmax, Option.all_some, decide_eq_true_iff] at hroom
        simpa using Nat.lt_of_succ_lt hroom
  obtain ⟨hheuristics, hp1⟩ := hp.fopen hroom' .heuristics
  obtain ⟨htrueProb, hp2⟩ := hp1.fopen (by simpa using hroom) .trueProbability
  have hlog : Logged cfg (fopen cfg (fopen cfg p .heuristics).2 .trueProbability).2
      (callLog before [] []) := by
    simpa [callLog] using hp2
  rw [List.length_append, List.length_singleton] at htrueProb
  rw [tracked_runOnFunction_eq, hheuristics, htrueProb]
  exact writeBlocks_ends (List.finRange n) hlog

theorem runOnFunctions_ends (functions : List (AnalysedFunction × Nat)) {done : List Printed}
    (hroom : cfg.maxOpen.all (2 * (done.length + functions.length) ≤ ·) = true)
    (hp : Logged cfg p (printedLog done)) :
    Ends cfg (printedLog (done ++ functionsPrinted functions))
      (printedFault (functionsPrinted functions)) (Tracked.runOnFunctions cfg functions p) := by
  induction functions generalizing p done with
  | nil => exact ⟨rfl, by simpa [functionsPrinted] using hp⟩
  | cons f functions ih =>
      have hroom' : cfg.maxOpen.all ((printedLog done).length + 1 < ·) = true := by
        cases hmax : cfg.maxOpen with
        | none => rfl
        | some limit =>
            rw [hmax, Option.all_some, decide_eq_true_iff, List.length_cons] at hroom
            rw [Option.all_some, decide_eq_true_iff, length_printedLog]
            omega
      have hf := runOnFunction_ends f.1.function f.1.analyses f.2 hroom' hp
      rw [← printedLog_concat] at hf
      rw [Tracked.runOnFunctions, List.foldlM_cons, functionsPrinted]
      cases hrun : Tracked.runOnFunction f.1.function f.1.analyses cfg f.2 p with
      | error stopped =>
          obtain ⟨fault, q⟩ := stopped
          rw [hrun] at hf
          obtain ⟨hfault, hq⟩ := hf
          obtain ⟨s, hs, _⟩ := Option.map_eq_some_iff.1 hfault
          rw [hs]
          exact ⟨by simp [printedFault, hfault], hq⟩
      | ok q =>
          rw [hrun] at hf
          obtain ⟨hfault, hq⟩ := hf
          have hrest := ih (by simpa [Nat.add_assoc, Nat.add_comm 1] using hroom) hq
          rw [List.append_assoc, List.singleton_append] at hrest
          rw [Printed.fault_eq_none_iff.1 hfault]
          have hcons : printedFault (functionPrinted f.1.function f.1.analyses f.2 ::
              functionsPrinted functions) = printedFault (functionsPrinted functions) := by
            rw [printedFault, List.findSome?_cons, hfault, printedFault]
          exact hcons ▸ hrest

end

/-! ### Calls that come too late -/

section
variable {n : Nat} {F : Function n} {A : Analyses n} {cfg : Config} {index limit : Nat}
  {p : Process CsvFile OutByte}

/-- Printing to a null stream is the first thing done for a branch. -/
theorem writeBlocks_null {heuristicData : Option Nat} (blocks : List (Fin n)) :
    blocks.foldlM (Tracked.writeBlock F A cfg index heuristicData none) p =
      if blocks.countP (fun b => (F.branchInst b).isSome) = 0 then .ok p
      else .error (.nullStream, p) := by
  induction blocks with
  | nil => rfl
  | cons b blocks ih =>
      rw [List.foldlM_cons, Tracked.writeBlock]
      cases hb : F.branchInst b with
      | none =>
          refine ih.trans ?_
          simp [hb]
      | some br => simp [hb, fprintf, bind, Except.bind]

/-- Where two more streams are too many, the first branch ends the run. -/
theorem runOnFunction_full (hlimit : cfg.maxOpen = some limit)
    (hfull : limit < p.streams.length + 2) (f : AnalysedFunction) (index : Nat) :
    Tracked.runOnFunction f.function f.analyses cfg index p =
      if branchCount f = 0 then .ok (fopen cfg (fopen cfg p .heuristics).2 .trueProbability).2
      else .error (.nullStream, (fopen cfg (fopen cfg p .heuristics).2 .trueProbability).2) := by
  have hlength : limit ≤ (fopen cfg p .heuristics).2.streams.length := by
    rw [length_streams_fopen, hlimit]
    simp only [Option.all_some, decide_eq_true_eq]
    split <;> omega
  rw [tracked_runOnFunction_eq, fopen_eq_none hlimit hlength, writeBlocks_null]
  rfl

/-- Such calls leave the files as they are, whether or not they end the run. -/
theorem leave_full (hlimit : cfg.maxOpen = some limit) (hfull : limit < p.streams.length + 2)
    (functions : List (AnalysedFunction × Nat)) :
    leave (Tracked.runOnFunctions cfg functions p) =
      if ∀ f ∈ functions, branchCount f.1 = 0 then (exit p, none) else (p.disk, some .nullStream) := by
  induction functions generalizing p with
  | nil => rfl
  | cons f functions ih =>
      have hrun := runOnFunction_full hlimit hfull f.1 f.2
      rw [Tracked.runOnFunctions, List.foldlM_cons, hrun]
      by_cases hbranches : branchCount f.1 = 0
      · have hopen : limit <
            (fopen cfg (fopen cfg p .heuristics).2 .trueProbability).2.streams.length + 2 := by
          rw [length_streams_fopen, length_streams_fopen]
          split_ifs <;> omega
        rw [if_pos hbranches]
        refine (ih hopen).trans ?_
        simp only [List.forall_mem_cons, hbranches, true_and, exit_fopen, disk_fopen]
      · simp [hbranches, bind, Except.bind, leave]

/-- Streams that are open stay open. -/
theorem exists_stream_full (hlimit : cfg.maxOpen = some limit) (hfull : limit < p.streams.length + 2)
    {file : CsvFile} (hopen : ∃ s ∈ p.streams, s.file = file)
    (functions : List (AnalysedFunction × Nat)) :
    HasStream file (Tracked.runOnFunctions cfg functions p) := by
  induction functions generalizing p with
  | nil => exact hopen
  | cons f functions ih =>
      have hopen' : ∃ s ∈ (fopen cfg (fopen cfg p .heuristics).2 .trueProbability).2.streams,
          s.file = file := by
        obtain ⟨s, hs, hfile⟩ := hopen
        exact ⟨s, mem_streams_fopen (mem_streams_fopen hs _ _) _ _, hfile⟩
      rw [Tracked.runOnFunctions, List.foldlM_cons, runOnFunction_full hlimit hfull]
      by_cases hbranches : branchCount f.1 = 0
      · rw [if_pos hbranches]
        refine ih ?_ hopen'
        rw [length_streams_fopen, length_streams_fopen]
        split_ifs <;> omega
      · rw [if_neg hbranches]
        exact hopen'

/-- There are functions called too late only when their limit is reached. -/
theorem full_of_unserved {functions : List (AnalysedFunction × Nat)}
    (hunserved : unserved cfg functions ≠ [])
    (hp : p.streams.length = 2 * (served cfg functions).length) :
    ∃ limit, cfg.maxOpen = some limit ∧ limit < p.streams.length + 2 := by
  cases hmax : cfg.maxOpen with
  | none => exact absurd (by rw [unserved, hmax]) hunserved
  | some limit =>
      rw [unserved, hmax, ne_eq, List.drop_eq_nil_iff, not_le] at hunserved
      refine ⟨limit, rfl, ?_⟩
      rw [hp, served, hmax, List.length_take, Nat.min_eq_left hunserved.le]
      omega

theorem leave_unserved (functions : List (AnalysedFunction × Nat))
    (hp : p.streams.length = 2 * (served cfg functions).length) :
    leave (Tracked.runOnFunctions cfg (unserved cfg functions) p) =
      if ∀ f ∈ unserved cfg functions, branchCount f.1 = 0 then (exit p, none)
      else (p.disk, some .nullStream) := by
  by_cases hnone : unserved cfg functions = []
  · rw [hnone]
    rfl
  · obtain ⟨limit, hlimit, hfull⟩ := full_of_unserved hnone hp
    exact leave_full hlimit hfull _

end

/-! ### The files of a run -/

section
variable (cfg : Config) (M : Module)

theorem runOnFunctions_split (p : Process CsvFile OutByte) :
    Tracked.runOnFunctions cfg M.zipIdx p =
      Tracked.runOnFunctions cfg (served cfg M.zipIdx) p >>=
        Tracked.runOnFunctions cfg (unserved cfg M.zipIdx) := by
  conv_lhs => rw [← served_append_unserved cfg M.zipIdx]
  exact List.foldlM_append

theorem served_ends : Ends cfg (printedLog (functionsPrinted (served cfg M.zipIdx)))
    (printedFault (functionsPrinted (served cfg M.zipIdx)))
    (Tracked.runOnFunctions cfg (served cfg M.zipIdx) Process.start) := by
  have hstart : Logged cfg (Process.start : Process CsvFile OutByte) (printedLog []) :=
    logged_start cfg
  refine runOnFunctions_ends (served cfg M.zipIdx) ?_ hstart
  cases hmax : cfg.maxOpen with
  | none => rfl
  | some limit =>
      simp only [Option.all_some, decide_eq_true_eq, served, hmax, List.length_nil, List.length_take]
      omega

variable {cfg M} {p : Process CsvFile OutByte}

theorem logged_of_served (h : Tracked.runOnFunctions cfg (served cfg M.zipIdx) Process.start = .ok p) :
    printedFault (functionsPrinted (served cfg M.zipIdx)) = none ∧
      Logged cfg p (printedLog (functionsPrinted (served cfg M.zipIdx))) ∧
        p.streams.length = 2 * (served cfg M.zipIdx).length := by
  have hserved := served_ends cfg M
  rw [h] at hserved
  obtain ⟨hfault, hlog⟩ := hserved
  refine ⟨hfault, hlog, ?_⟩
  rw [hlog.length, length_printedLog,
    functionsPrinted_of_passes (printedFault_functionsPrinted.1 hfault), List.length_map]

end

/-- A run over empty files leaves everything it has printed, or, after a fault, the blocks flushed until
then. -/
theorem optOver_empty (cfg : Config) (M : Module) :
    optOver cfg M (fun _ => []) =
      (fun file =>
        if runFault cfg M = none then
          rowFile cfg.bufferSize ((functionsPrinted (served cfg M.zipIdx)).map (·.rows file))
        else (functionsPrinted (served cfg M.zipIdx)).flatMap fun printed =>
          early cfg.bufferSize (printed.rows file).flatten,
      runFault cfg M) := by
  have hparts : optOver cfg M (fun _ => []) =
      leave (Tracked.runOnFunctions cfg M.zipIdx Process.start) := rfl
  rw [hparts, runOnFunctions_split]
  cases hrun : Tracked.runOnFunctions cfg (served cfg M.zipIdx) Process.start with
  | error stopped =>
      obtain ⟨fault, p⟩ := stopped
      have hserved := served_ends cfg M
      rw [hrun] at hserved
      obtain ⟨hfault, hlog⟩ := hserved
      have hend : runFault cfg M = some fault := by rw [runFault, hfault]
      rw [hend]
      refine congrArg (·, some fault) (funext fun file => ?_)
      rw [if_neg (by simp), hlog.disk, printedLog_on, List.flatMap_map]
  | ok p =>
      obtain ⟨hfault, hlog, hlength⟩ := logged_of_served hrun
      have hend : runFault cfg M =
          if ∀ f ∈ unserved cfg M, branchCount f = 0 then none else some .nullStream := by
        rw [runFault, hfault]
      have hfiles : ∀ file, exit p file =
          rowFile cfg.bufferSize ((functionsPrinted (served cfg M.zipIdx)).map (·.rows file)) := by
        intro file
        rw [hlog.exit_eq, printedLog_on, rowFile, List.map_map]
        rfl
      have hdisk : ∀ file, p.disk file = (functionsPrinted (served cfg M.zipIdx)).flatMap
          fun printed => early cfg.bufferSize (printed.rows file).flatten := by
        intro file
        rw [hlog.disk, printedLog_on, List.flatMap_map]
      have hrest : leave (Tracked.runOnFunctions cfg (unserved cfg M.zipIdx) p) =
          if ∀ f ∈ unserved cfg M, branchCount f = 0 then (exit p, none)
          else (p.disk, some .nullStream) := by
        simp only [← forall_unserved_iff cfg M fun f => branchCount f = 0]
        exact leave_unserved M.zipIdx hlength
      refine hrest.trans ?_
      rw [hend]
      split
      · exact congrArg (·, none) (funext fun file => (hfiles file).trans (if_pos rfl).symm)
      · refine congrArg (·, some Fault.nullStream) (funext fun file => (hdisk file).trans ?_)
        exact (if_neg (Option.some_ne_none _)).symm

/-- A call that has its streams creates both files. -/
theorem creates_of_served {cfg : Config} {M : Module} (h : served cfg M ≠ []) (file : CsvFile) :
    creates cfg M file = true := by
  have hlog : ∃ entry ∈ printedLog (functionsPrinted (served cfg M.zipIdx)), entry.1 = file := by
    obtain ⟨f, functions, hf⟩ : ∃ f functions, served cfg M.zipIdx = f :: functions := by
      refine List.exists_cons_of_ne_nil fun hnil => h ?_
      rw [← List.zipIdx_map_fst 0 M, ← map_served, hnil, List.map_nil]
    obtain ⟨printed, rest, hprinted⟩ : ∃ printed rest,
        functionsPrinted (f :: functions) = printed :: rest := by
      rw [functionsPrinted]
      split <;> exact ⟨_, _, rfl⟩
    rw [hf, hprinted, printedLog, List.flatMap_cons]
    cases file <;> simp [callLog]
  have hstream : HasStream file (Tracked.runOnFunctions cfg M.zipIdx Process.start) := by
    rw [runOnFunctions_split]
    cases hrun : Tracked.runOnFunctions cfg (served cfg M.zipIdx) Process.start with
    | error stopped =>
        have hserved := served_ends cfg M
        rw [hrun] at hserved
        exact hserved.2.exists_stream hlog
    | ok p =>
        obtain ⟨_, hlogged, hlength⟩ := logged_of_served hrun
        have hopen := hlogged.exists_stream hlog
        by_cases hnone : unserved cfg M.zipIdx = []
        · rw [hnone]
          exact hopen
        · obtain ⟨limit, hlimit, hfull⟩ := full_of_unserved hnone hlength
          exact exists_stream_full hlimit hfull hopen _
  rw [creates]
  cases hrun : Tracked.runOnFunctions cfg M.zipIdx Process.start <;> rw [hrun] at hstream <;>
    simpa [HasStream] using hstream

theorem fault_optOver (cfg : Config) (M : Module) (disk : Disk) :
    (optOver cfg M disk).2 = none ↔ GoesThrough cfg M := by
  rw [optOver_eq, optOver_empty]
  exact runFault_eq_none_iff cfg M

/-! ### The records of a run -/

theorem branchInst_of_branchCount {f : AnalysedFunction} (h : branchCount f = 0) (b : Fin f.blocks) :
    f.function.branchInst b = none := by
  have hnone := List.countP_eq_zero.1 h b (List.mem_finRange b)
  simpa using hnone

theorem functionPrinted_of_branchCount {f : AnalysedFunction} (h : branchCount f = 0) (index : Nat) :
    functionPrinted f.function f.analyses index = ⟨[], none⟩ := by
  rw [functionPrinted, blocksPrinted_of_passes fun b _ => passes_of_none (branchInst_of_branchCount h b)]
  refine congrArg (Printed.mk · none) (List.flatMap_eq_nil_iff.2 fun b _ => ?_)
  rw [blockPrinted, branchInst_of_branchCount h b]

theorem GoesThrough.passes {cfg : Config} {M : Module} (h : GoesThrough cfg M) :
    ∀ f ∈ M, ∀ b, Passes f.function b := by
  intro f hf b
  rw [← served_append_unserved cfg M] at hf
  obtain hf | hf := List.mem_append.1 hf
  · exact h.1 f hf b
  · exact passes_of_none (branchInst_of_branchCount (h.2 f hf) b)

/-- A run that goes through leaves the rows of its records. -/
theorem GoesThrough.optOver_eq {cfg : Config} {M : Module} (h : GoesThrough cfg M) :
    ∃ records, moduleRecords M = .ok records ∧
      optOver cfg M (fun _ => []) =
        (fun file => entryFile cfg.bufferSize (RowRecord.bytes file) records, none) := by
  refine ⟨_, moduleRecords_eq_ok_iff.2 ⟨h.passes, rfl⟩, ?_⟩
  rw [optOver_empty, (runFault_eq_none_iff cfg M).2 h]
  refine congrArg (·, none) (funext fun file => ?_)
  have hrows : ∀ f ∈ served cfg M.zipIdx, (functionPrinted f.1.function f.1.analyses f.2).rows file =
      (functionPrinted f.1.function f.1.analyses f.2).records.map (RowRecord.bytes file) := by
    intro f hf
    have hstopped : (functionPrinted f.1.function f.1.analyses f.2).stopped = none :=
      stopped_functionPrinted.2
        ((forall_served_iff cfg M fun f => ∀ b, Passes f.function b).2 h.1 f hf)
    cases file <;> simp [Printed.rows, hstopped]
  have hnone : ∀ f ∈ unserved cfg M.zipIdx,
      (functionPrinted f.1.function f.1.analyses f.2).records = [] := by
    intro f hf
    rw [functionPrinted_of_branchCount
      ((forall_unserved_iff cfg M fun f => branchCount f = 0).2 h.2 f hf)]
  have hpasses := (forall_served_iff cfg M fun f => ∀ b, Passes f.function b).2 h.1
  conv_rhs => rw [← served_append_unserved cfg M.zipIdx]
  rw [if_pos rfl, functionsPrinted_of_passes hpasses, List.map_map, entryFile, List.map_append,
    List.map_append, rowFile_append_of_nil]
  · rw [List.map_map]
    exact congrArg (rowFile cfg.bufferSize) (List.map_congr_left hrows)
  · intro rows hmem
    simp only [List.mem_map, exists_exists_and_eq_and] at hmem
    obtain ⟨f, hf, rfl⟩ := hmem
    rw [hnone f hf, List.map_nil]

theorem exists_moduleRecords {cfg : Config} {M : Module} {files : Disk}
    (h : opt cfg M = .ok files) :
    ∃ records, moduleRecords M = .ok records ∧
      files = fun file => entryFile cfg.bufferSize (RowRecord.bytes file) records := by
  have hrun := (opt_eq_ok_iff cfg M files).1 h
  have hthrough : GoesThrough cfg M := (fault_optOver cfg M fun _ => []).1 (by rw [hrun])
  obtain ⟨records, hrecords, heq⟩ := hthrough.optOver_eq
  exact ⟨records, hrecords, (Prod.mk.inj (hrun.symm.trans heq)).1⟩

end CalcHeuristics
