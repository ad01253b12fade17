import Mathlib.Data.List.Basic
import Mathlib.Logic.Function.Basic
import Mathlib.Tactic.Ring

/-!
# Buffered append-mode streams

A process holds files and open streams. What is given to a stream waits in its buffer; an item that
finds the buffer full first appends the whole buffer to the file. Streams that are never closed are
flushed when the process exits, the most recently opened first.

What the proofs use is the log: for each stream, in the order of opening, the file and everything
ever given to the stream. `Logged` says that a process is the one a log leads to, provided each file is
only written through its most recent stream, and `exit_eq` reads the final files off the log.
-/

namespace Stdio

variable {φ α : Type*}

structure Config where
  bufferSize : Nat
  bufferSize_pos : 0 < bufferSize
  /-- How many streams the process may hold open, if there is a limit. -/
  maxOpen : Option Nat

structure Stream (φ α : Type*) where
  file : φ
  buffer : List α

structure Process (φ α : Type*) where
  disk : φ → List α
  /-- The open streams, in the order of opening. A stream is named by its position. -/
  streams : List (Stream φ α)

/-- A process that has opened nothing yet, over empty files. -/
def Process.start : Process φ α := ⟨fun _ => [], []⟩

/-- A new append-mode stream, or a null stream when no descriptor is left. -/
def fopen (cfg : Config) (p : Process φ α) (file : φ) : Option Nat × Process φ α :=
  if cfg.maxOpen.all (p.streams.length < ·) then
    (some p.streams.length, { p with streams := p.streams ++ [⟨file, []⟩] })
  else (none, p)

section
variable [DecidableEq φ]

def appendTo (disk : φ → List α) (file : φ) (data : List α) : φ → List α :=
  Function.update disk file (disk file ++ data)

def fputc (cfg : Config) (p : Process φ α) (stream : Nat) (item : α) : Process φ α :=
  match p.streams[stream]? with
  | none => p
  | some s =>
    if s.buffer.length < cfg.bufferSize then
      { p with streams := p.streams.set stream { s with buffer := s.buffer ++ [item] } }
    else
      { disk := appendTo p.disk s.file s.buffer
        streams := p.streams.set stream { s with buffer := [item] } }

def fwrite (cfg : Config) (p : Process φ α) (stream : Nat) (data : List α) : Process φ α :=
  data.foldl (fputc cfg · stream) p

/-- The files once the process has exited. -/
def exit (p : Process φ α) : φ → List α :=
  p.streams.reverse.foldl (fun disk s => appendTo disk s.file s.buffer) p.disk

end

/-! ### The open streams -/

/-- The process holds the stream open. -/
def Process.IsOpen (p : Process φ α) (stream : Nat) : Prop := stream < p.streams.length

theorem isOpen_iff_iff {p p' : Process φ α} :
    (∀ s, p'.IsOpen s ↔ p.IsOpen s) ↔ p'.streams.length = p.streams.length := by
  refine ⟨fun h => ?_, fun h s => by rw [Process.IsOpen, Process.IsOpen, h]⟩
  apply le_antisymm
  · by_contra hlt
    exact absurd ((h p.streams.length).1 (not_le.1 hlt)) (lt_irrefl _)
  · by_contra hlt
    exact absurd ((h p'.streams.length).2 (not_le.1 hlt)) (lt_irrefl _)

theorem length_streams_fopen (cfg : Config) (p : Process φ α) (file : φ) :
    (fopen cfg p file).2.streams.length =
      if cfg.maxOpen.all (p.streams.length < ·) then p.streams.length + 1
      else p.streams.length := by
  rw [fopen]
  split
  · simp
  · rfl

theorem fopen_eq_none {cfg : Config} {p : Process φ α} {limit : Nat} (hlimit : cfg.maxOpen = some limit)
    (hfull : limit ≤ p.streams.length) (file : φ) : (fopen cfg p file).1 = none := by
  rw [fopen, hlimit, if_neg]
  simpa using hfull

theorem mem_streams_fopen {p : Process φ α} {s : Stream φ α} (h : s ∈ p.streams) (cfg : Config)
    (file : φ) : s ∈ (fopen cfg p file).2.streams := by
  rw [fopen]
  split
  · exact List.mem_append_left _ h
  · exact h

@[simp] theorem disk_fopen (cfg : Config) (p : Process φ α) (file : φ) :
    (fopen cfg p file).2.disk = p.disk := by
  rw [fopen]
  split <;> rfl

/-- A stream that nothing is given to leaves nothing. -/
@[simp] theorem exit_fopen [DecidableEq φ] (cfg : Config) (p : Process φ α) (file : φ) :
    exit (fopen cfg p file).2 = exit p := by
  rw [fopen]
  split
  · simp [exit, appendTo]
  · rfl

@[simp] theorem length_streams_fputc [DecidableEq φ] (cfg : Config) (p : Process φ α) (s : Nat)
    (item : α) : (fputc cfg p s item).streams.length = p.streams.length := by
  rw [fputc]
  split
  · rfl
  · split <;> simp

@[simp] theorem length_streams_fwrite [DecidableEq φ] (cfg : Config) (p : Process φ α) (s : Nat)
    (data : List α) : (fwrite cfg p s data).streams.length = p.streams.length := by
  induction data generalizing p with
  | nil => rfl
  | cons item data ih => rw [fwrite, List.foldl_cons, ← fwrite, ih, length_streams_fputc]

/-! ### What one stream has written -/

/-- How many items of a stream have reached the file after `n` were given to it: the buffer is only
emptied by an item that does not fit. -/
def flushed (C n : Nat) : Nat := C * ((n - 1) / C)

def early (C : Nat) (data : List α) : List α := data.take (flushed C data.length)

def pending (C : Nat) (data : List α) : List α := data.drop (flushed C data.length)

theorem flushed_le (C n : Nat) : flushed C n ≤ n := by
  have := Nat.mul_div_le (n - 1) C
  unfold flushed
  omega

theorem flushed_lt {C n : Nat} (hn : 0 < n) : flushed C n < n := by
  have := Nat.mul_div_le (n - 1) C
  unfold flushed
  omega

theorem le_flushed_add {C n : Nat} (hC : 0 < C) : n ≤ flushed C n + C := by
  have := Nat.div_add_mod (n - 1) C
  have := Nat.mod_lt (n - 1) hC
  unfold flushed
  omega

/-- What is flushed of some items is the largest multiple of the buffer size below their number. -/
theorem flushed_eq_iff {C n k : Nat} (hC : 0 < C) (hn : 0 < n) :
    flushed C n = k ↔ C ∣ k ∧ k < n ∧ n ≤ k + C := by
  constructor
  · rintro rfl
    exact ⟨Dvd.intro _ rfl, flushed_lt hn, le_flushed_add hC⟩
  · intro h
    obtain ⟨⟨q, rfl⟩, hlt, hle⟩ := h
    have hq : (n - 1) / C = q :=
      Nat.div_eq_of_lt_le (by rw [Nat.mul_comm]; omega) (by rw [Nat.succ_mul, Nat.mul_comm]; omega)
    rw [flushed, hq]

theorem early_append_pending (C : Nat) (data : List α) : early C data ++ pending C data = data :=
  List.take_append_drop _ _

theorem length_early (C : Nat) (data : List α) : (early C data).length = flushed C data.length := by
  rw [early, List.length_take, Nat.min_eq_left (flushed_le _ _)]

theorem length_pending (C : Nat) (data : List α) :
    (pending C data).length = data.length - flushed C data.length := by
  rw [pending, List.length_drop]

@[simp] theorem early_nil (C : Nat) : early C ([] : List α) = [] := by simp [early]

@[simp] theorem pending_nil (C : Nat) : pending C ([] : List α) = [] := by simp [pending]

theorem flushed_succ {C n : Nat} (hC : 0 < C) :
    flushed C (n + 1) = if n - flushed C n < C then flushed C n else n := by
  unfold flushed
  obtain rfl | hn := Nat.eq_zero_or_pos n
  · simp [hC]
  have hdiv := Nat.div_add_mod (n - 1) C
  have hmod := Nat.mod_lt (n - 1) hC
  rw [Nat.add_sub_cancel]
  split
  · rename_i hroom
    congr 1
    rw [show n = (n - 1) + 1 by omega, Nat.succ_div, if_neg]
    · simp
    · intro hdvd
      obtain ⟨k, hk⟩ := hdvd
      have hk' : n = C * k := by omega
      have hlt : C * ((n - 1) / C) < C * k := by omega
      have hgt : C * k < C * ((n - 1) / C + 1) := by rw [Nat.mul_add]; omega
      have := Nat.lt_of_mul_lt_mul_left hlt
      have := Nat.lt_of_mul_lt_mul_left hgt
      omega
  · rename_i hfull
    have hn' : n = C * ((n - 1) / C + 1) := by rw [Nat.mul_add]; omega
    have hq : n / C = (n - 1) / C + 1 := by
      conv_lhs => rw [hn']
      exact Nat.mul_div_cancel_left _ hC
    rw [hq, ← hn']

theorem early_append_singleton {C : Nat} (hC : 0 < C) (data : List α) (item : α) :
    early C (data ++ [item]) =
      if (pending C data).length < C then early C data else early C data ++ pending C data := by
  rw [length_pending, early_append_pending, early, List.length_append, List.length_singleton,
    flushed_succ hC]
  split
  · rw [List.take_append_of_le_length (flushed_le _ _), early]
  · rw [List.take_append_of_le_length le_rfl, List.take_length]

theorem pending_append_singleton {C : Nat} (hC : 0 < C) (data : List α) (item : α) :
    pending C (data ++ [item]) =
      if (pending C data).length < C then pending C data ++ [item] else [item] := by
  rw [length_pending, pending, List.length_append, List.length_singleton, flushed_succ hC]
  split
  · rw [List.drop_append_of_le_length (flushed_le _ _), pending]
  · rw [List.drop_append_of_le_length le_rfl, List.drop_length, List.nil_append]

/-! ### The log of a process -/

abbrev Log (φ α : Type*) := List (φ × List α)

/-- The data given to the streams of one file, in the order of opening. -/
def Log.on [DecidableEq φ] (log : Log φ α) (file : φ) : List (List α) :=
  (log.filter (·.1 = file)).map Prod.snd

structure Logged [DecidableEq φ] (cfg : Config) (p : Process φ α) (log : Log φ α) : Prop where
  streams : p.streams = log.map fun entry => ⟨entry.1, pending cfg.bufferSize entry.2⟩
  disk : ∀ file, p.disk file = (log.on file).flatMap (early cfg.bufferSize)

variable [DecidableEq φ] {cfg : Config} {p : Process φ α} {log before after : Log φ α} {file : φ}

theorem Log.on_append (log log' : Log φ α) (file : φ) :
    Log.on (log ++ log') file = log.on file ++ log'.on file := by
  simp [Log.on]

theorem Log.on_cons_self (data : List α) (log : Log φ α) (file : φ) :
    Log.on ((file, data) :: log) file = data :: log.on file := by
  simp [Log.on]

theorem Log.on_cons_ne {other : φ} (hne : other ≠ file) (data : List α) (log : Log φ α) :
    Log.on ((other, data) :: log) file = log.on file := by
  simp [Log.on, hne]

theorem Log.on_eq_nil (h : ∀ entry ∈ log, entry.1 ≠ file) : log.on file = [] := by
  simpa [Log.on, List.filter_eq_nil_iff] using h

theorem logged_start (cfg : Config) : Logged cfg (Process.start : Process φ α) [] :=
  ⟨rfl, fun _ => rfl⟩

theorem Logged.length (h : Logged cfg p log) : p.streams.length = log.length := by
  rw [h.streams, List.length_map]

theorem Logged.exists_stream (h : Logged cfg p log) (hlog : ∃ entry ∈ log, entry.1 = file) :
    ∃ s ∈ p.streams, s.file = file := by
  obtain ⟨entry, hentry, hfile⟩ := hlog
  exact ⟨_, h.streams ▸ List.mem_map_of_mem hentry, hfile⟩

theorem Logged.fopen (h : Logged cfg p log) (hroom : cfg.maxOpen.all (log.length < ·) = true)
    (file : φ) :
    (Stdio.fopen cfg p file).1 = some log.length ∧
      Logged cfg (Stdio.fopen cfg p file).2 (log ++ [(file, [])]) := by
  rw [← h.length] at hroom
  rw [Stdio.fopen, if_pos hroom]
  refine ⟨congrArg some h.length, ?_, fun f => ?_⟩
  · simp [h.streams]
  · rw [h.disk f, Log.on_append, List.flatMap_append]
    by_cases hf : file = f <;> simp [Log.on, hf]

/-- One item given to the most recent stream of a file is added to the log of that stream. -/
theorem Logged.fputc (h : Logged cfg p (before ++ (file, data) :: after))
    (hlast : ∀ entry ∈ after, entry.1 ≠ file) (item : α) :
    Logged cfg (Stdio.fputc cfg p before.length item)
      (before ++ (file, data ++ [item]) :: after) := by
  have hs : p.streams[before.length]? = some ⟨file, pending cfg.bufferSize data⟩ := by
    rw [h.streams]
    simp
  have hset : ∀ buffer, p.streams.set before.length ⟨file, buffer⟩ =
      before.map (fun entry => ⟨entry.1, pending cfg.bufferSize entry.2⟩) ++
        ⟨file, buffer⟩ :: after.map (fun entry => ⟨entry.1, pending cfg.bufferSize entry.2⟩) := by
    intro buffer
    rw [h.streams, List.map_append, List.set_append_right _ _ (by simp)]
    simp
  have hon : ∀ data', Log.on (before ++ (file, data') :: after) file =
      before.on file ++ [data'] := by
    intro data'
    rw [Log.on_append, Log.on_cons_self, Log.on_eq_nil hlast]
  have hother : ∀ f, f ≠ file → ∀ data', Log.on (before ++ (file, data') :: after) f =
      before.on f ++ after.on f := by
    intro f hf data'
    rw [Log.on_append, Log.on_cons_ne (Ne.symm hf)]
  have hearly := early_append_singleton cfg.bufferSize_pos data item
  have hpending := pending_append_singleton cfg.bufferSize_pos data item
  rw [Stdio.fputc, hs]
  dsimp only
  split
  · rename_i hroom
    rw [if_pos hroom] at hearly hpending
    refine ⟨?_, fun f => ?_⟩
    · simp [hset, hpending]
    · rw [h.disk f]
      by_cases hf : f = file
      · subst hf
        simp only [hon, List.flatMap_append, List.flatMap_cons, List.flatMap_nil, hearly]
      · rw [hother f hf, hother f hf]
  · rename_i hfull
    rw [if_neg hfull] at hearly hpending
    refine ⟨?_, fun f => ?_⟩
    · simp [hset, hpending]
    · by_cases hf : f = file
      · subst hf
        simp [appendTo, h.disk, hon, hearly]
      · show appendTo p.disk file (pending cfg.bufferSize data) f = _
        rw [appendTo, Function.update_of_ne hf, h.disk f, hother f hf, hother f hf]

theorem Logged.fwrite (data' : List α) (hlast : ∀ entry ∈ after, entry.1 ≠ file) :
    ∀ {p : Process φ α} {data : List α}, Logged cfg p (before ++ (file, data) :: after) →
      Logged cfg (Stdio.fwrite cfg p before.length data')
        (before ++ (file, data ++ data') :: after) := by
  induction data' with
  | nil =>
      intro p data h
      simpa [Stdio.fwrite] using h
  | cons item rest ih =>
      intro p data h
      have hstep := ih (h.fputc hlast item)
      simpa [Stdio.fwrite] using hstep

/-! ### The files after the process has exited -/

/-- The final contents of a file whose streams were given `datas`, in the order of opening. -/
def finalContents (C : Nat) : List (List α) → List α
  | [] => []
  | data :: rest => early C data ++ finalContents C rest ++ pending C data

theorem finalContents_eq (C : Nat) (datas : List (List α)) :
    finalContents C datas = datas.flatMap (early C) ++ datas.reverse.flatMap (pending C) := by
  induction datas with
  | nil => rfl
  | cons data rest ih => simp [finalContents, ih]

theorem finalContents_append_of_nil (C : Nat) (datas : List (List α)) {later : List (List α)}
    (h : ∀ data ∈ later, data = []) : finalContents C (datas ++ later) = finalContents C datas := by
  have hearly : later.flatMap (early C) = [] :=
    List.flatMap_eq_nil_iff.2 fun data hdata => by rw [h data hdata, early_nil]
  have hpending : later.reverse.flatMap (pending C) = [] :=
    List.flatMap_eq_nil_iff.2 fun data hdata => by rw [h data (List.mem_reverse.1 hdata), pending_nil]
  rw [finalContents_eq, finalContents_eq, List.flatMap_append, List.reverse_append,
    List.flatMap_append, hearly, hpending, List.append_nil, List.nil_append]

theorem finalContents_perm (C : Nat) (datas : List (List α)) :
    (finalContents C datas).Perm datas.flatten := by
  induction datas with
  | nil => exact List.Perm.refl _
  | cons data rest ih =>
      rw [finalContents, List.append_assoc, List.flatten_cons]
      refine (List.Perm.append_left _ (List.perm_append_comm.trans (ih.append_left _))).trans ?_
      rw [← List.append_assoc, early_append_pending]

theorem finalContents_map {β : Type*} (g : α → β) (C : Nat) (datas : List (List α)) :
    (finalContents C datas).map g = finalContents C (datas.map (List.map g)) := by
  induction datas with
  | nil => rfl
  | cons data rest ih =>
      simp [finalContents, ih, early, pending, List.map_take, List.map_drop]

theorem exit_streams (streams : List (Stream φ α)) (disk : φ → List α) (file : φ) :
    streams.foldl (fun disk s => appendTo disk s.file s.buffer) disk file =
      disk file ++ ((streams.filter (·.file = file)).map Stream.buffer).flatten := by
  induction streams generalizing disk with
  | nil => simp
  | cons s rest ih =>
      rw [List.foldl_cons, ih]
      by_cases hs : s.file = file
      · simp [appendTo, hs]
      · simp [appendTo, hs, Function.update_of_ne (Ne.symm hs)]

theorem Logged.exit_eq (h : Logged cfg p log) (file : φ) :
    exit p file = finalContents cfg.bufferSize (log.on file) := by
  rw [exit, exit_streams, h.disk file, finalContents_eq, h.streams]
  congr 1
  simp [Log.on, List.flatMap, List.filter_map, Function.comp_def, List.filter_reverse]

end Stdio
