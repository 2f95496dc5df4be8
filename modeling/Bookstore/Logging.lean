import Bookstore.Decimals
import Bookstore.HttpTypes
import Mathlib.Algebra.Group.Int.Defs
import Mathlib.Logic.Basic

/-!
`Log` and the start-up that may initialise it. A write is modelled by what it does
with its file and its buffer; the texts of the messages are left out but for their
length.
-/
namespace Bookstore.Logging

open Decimals HttpTypes

/-! ## Members and inputs -/

/-- A pointer is told by whether it is null. -/
inductive Pointer
  | null
  | valid
deriving DecidableEq

structure Log where
  dirName : Bytes
  logName : Bytes
  splitLines : Int32
  logBufSize : Int32
  count : Int64
  today : Int32
  fp : Pointer
  buf : Pointer
  isAsync : Bool
  closeLog : Int32

/-- The constructor. -/
def Log.new : Log := ⟨[], [], 0, 0, 0, 0, .null, .null, false, 0⟩

/-- `my_tm`, with `tv_usec`. -/
structure Clock where
  year : Int32
  mon : Int32
  mday : Int32
  hour : Int32
  min : Int32
  sec : Int32
  usec : Int64

/-- A call of `write_log`: its level, the time, what `vsnprintf` returns for its message,
whether `fopen` succeeds should it be called, and whether the queue is full. -/
structure Call where
  level : Int32
  clock : Clock
  printed : Int32
  opened : Pointer
  queueFull : Bool

/-- What a call does with the file and the buffer. The formatting functions may write at
every index from an offset on, as many as they are told. -/
inductive Action
  | modulo (divisor : Int32)
  | divide (divisor : Int32)
  | fflush (fp : Pointer)
  | fclose (fp : Pointer)
  | fopen (name : Bytes)
  | format (buf : Pointer) (offset size : ℤ)
  | store (buf : Pointer) (index : ℤ)
  | fputs (fp : Pointer)
  | push
deriving DecidableEq

/-- What is asked of an action, with the size of the buffer. `fflush` may be given null. -/
def Action.Safe (bufSize : ℤ) : Action → Prop
  | modulo divisor => divisor ≠ 0
  | divide divisor => divisor ≠ 0
  | fflush _ => True
  | fclose fp => fp ≠ .null
  | fopen _ => True
  | format buf offset size => buf ≠ .null ∧ 0 ≤ offset ∧ offset + size ≤ bufSize
  | store buf index => buf ≠ .null ∧ 0 ≤ index ∧ index < bufSize
  | fputs fp => fp ≠ .null
  | push => True

/-! ## Formatting -/

/-- `%0wd` -/
def padded (w : ℕ) (z : ℤ) : Bytes :=
  if z < 0 then 45 :: (List.replicate (w - 1 - (decimal z.natAbs).length) 48 ++ decimal z.natAbs)
  else List.replicate (w - (decimal z.natAbs).length) 48 ++ decimal z.natAbs

/-- `%d_%02d_%02d_` -/
def dateText (clock : Clock) : Bytes :=
  signed (clock.year + 1900).toInt ++ 95 :: (padded 2 (clock.mon + 1).toInt ++
    95 :: (padded 2 clock.mday.toInt ++ [95]))

/-- `snprintf` into a buffer of this size. -/
def snprintf (size : ℕ) (text : Bytes) : Bytes := text.take (size - 1)

def kLevelTags : List Bytes :=
  [ascii "[debug]:", ascii "[info]:", ascii "[warn]:", ascii "[erro]:"]

def tag (level : Int32) : Bytes :=
  kLevelTags.getD (if 0 ≤ level ∧ level ≤ 3 then level.toNatClampNeg else 1) []

/-- The time and the tag in front of a message. -/
def prefixText (call : Call) : Bytes :=
  signed (call.clock.year + 1900).toInt ++ 45 :: (padded 2 (call.clock.mon + 1).toInt ++
    45 :: (padded 2 call.clock.mday.toInt ++ 32 :: (padded 2 call.clock.hour.toInt ++
      58 :: (padded 2 call.clock.min.toInt ++ 58 :: (padded 2 call.clock.sec.toInt ++
        46 :: (padded 6 call.clock.usec.toInt ++ 32 :: (tag call.level ++ [32])))))))

/-! ## The methods -/

/-- The file name is cut behind its last slash. -/
def Log.init (log : Log) (fileName : Bytes)
    (closeLog logBufSize splitLines maxQueueSize : Int32) (clock : Clock) (opened : Pointer) :
    Log × List Action :=
  let logName := (fileName.reverse.takeWhile (· ≠ 47)).reverse
  let dirName := fileName.take (fileName.length - logName.length)
  let logFullName := snprintf 255 (dirName ++ dateText clock ++ logName)
  ({ log with
      isAsync := if 1 ≤ maxQueueSize then true else log.isAsync
      closeLog := closeLog
      logBufSize := logBufSize
      buf := .valid
      splitLines := splitLines
      dirName := if dirName = [] then log.dirName else dirName
      logName := if dirName = [] then log.logName else logName
      today := clock.mday
      fp := opened },
    [.fopen logFullName])

/-- The condition of the rotation. -/
def Log.Due (log : Log) (call : Call) : Prop :=
  log.today ≠ call.clock.mday ∨ log.count % log.splitLines.toInt64 = 0

instance (log : Log) (call : Call) : Decidable (log.Due call) := by
  unfold Log.Due
  infer_instance

/-- The rotation, behind its condition. -/
def Log.rotate (log : Log) (call : Call) : Log × List Action :=
  let tail := snprintf 16 (dateText call.clock)
  if log.today ≠ call.clock.mday then
    let newLog := snprintf 255 (log.dirName ++ tail ++ log.logName)
    ({ log with today := call.clock.mday, count := 0, fp := call.opened },
      [.fflush log.fp, .fclose log.fp, .fopen newLog])
  else
    let newLog := snprintf 255 (log.dirName ++ tail ++ log.logName ++
      46 :: signed (log.count / log.splitLines.toInt64).toInt)
    ({ log with fp := call.opened },
      [.fflush log.fp, .fclose log.fp, .divide log.splitLines, .fopen newLog])

/-- The count is divided only on the day of the last call. -/
def Log.rotateIfDue (log : Log) (call : Call) : Log × List Action :=
  let test := if log.today ≠ call.clock.mday then [] else [.modulo log.splitLines]
  if log.Due call then ((log.rotate call).1, test ++ (log.rotate call).2) else (log, test)

/-- How much of a message stays, with `room` bytes behind the time and the tag. -/
def clampMessage (room : ℤ) (printed : Int32) : ℤ :=
  let m := if printed.toInt < 0 then 0 else printed.toInt
  if room - 2 < m then room - 2 else m

/-- The two formatting calls and the end of the line. No `int` operation overflows here. -/
def Log.formatLine (log : Log) (call : Call) : List Action :=
  let n : ℤ := (prefixText call).length
  let room := log.logBufSize.toInt - n
  let m := clampMessage room call.printed
  [.format log.buf 0 48, .format log.buf n ((room - 1) % 2 ^ 64), .store log.buf (n + m),
    .store log.buf (n + m + 1)]

/-- A line goes to the file, or to the queue of the thread that writes the file. -/
def Log.deliver (log : Log) (call : Call) : List Action :=
  (if !log.isAsync && log.fp = .valid then [.fputs log.fp, .fflush log.fp] else []) ++
    (if log.isAsync && !call.queueFull then [.push] else [])

def Log.counted (log : Log) : Log := { log with count := log.count + 1 }

def Log.writeLog (log : Log) (call : Call) : Log × List Action :=
  if log.closeLog ≠ 0 then (log, [])
  else
    let next := (log.counted.rotateIfDue call).1
    (next, (log.counted.rotateIfDue call).2 ++ next.formatLine call ++ next.deliver call)

/-- The options of the command line, and what `init` meets should it be called. -/
structure Startup where
  closeLog : Int32
  logWrite : Int32
  clock : Clock
  opened : Pointer

/-- `WebServer::log_write` -/
def WebServer.logWrite (s : Startup) : Log :=
  if 0 = s.closeLog then
    if 1 = s.logWrite then
      (Log.new.init (ascii "./ServerLog") s.closeLog 2000 800000 800 s.clock s.opened).1
    else (Log.new.init (ascii "./ServerLog") s.closeLog 2000 800000 0 s.clock s.opened).1
  else Log.new

/-- Every action of every call is safe. -/
def SafeFrom : Log → List Call → Prop
  | _, [] => True
  | log, call :: calls => (∀ a ∈ (log.writeLog call).2, a.Safe log.logBufSize.toInt) ∧
      SafeFrom (log.writeLog call).1 calls

/-! ## When it is safe -/

/-- A call starts a new file: on another day than the last one, or after 800000 lines. -/
def Rotates (today : Int32) (count : Int64) (call : Call) : Prop :=
  today ≠ call.clock.mday ∨ (count + 1) % 800000 = 0

instance (today : Int32) (count : Int64) (call : Call) : Decidable (Rotates today count call) := by
  unfold Rotates
  infer_instance

/-- No call starts a new file after one that could not be opened. -/
def NeverAfterFailure (today : Int32) (count : Int64) (opened : Pointer) : List Call → Prop
  | [] => True
  | call :: calls =>
    if Rotates today count call then
      opened = .valid ∧ NeverAfterFailure call.clock.mday
        (if today ≠ call.clock.mday then 0 else count + 1) call.opened calls
    else NeverAfterFailure today (count + 1) opened calls

/-! ## The buffer -/

theorem length_decimal_int32 (z : Int32) : (decimal z.toInt.natAbs).length ≤ 10 := by
  have hlow := z.le_toInt
  have hhigh := z.toInt_lt
  exact length_decimal_le (by decide) (by omega)

theorem length_decimal_int64 (z : Int64) : (decimal z.toInt.natAbs).length ≤ 19 := by
  have hlow := z.le_toInt
  have hhigh := z.toInt_lt
  exact length_decimal_le (by decide) (by omega)

theorem length_signed_le (z : ℤ) : (signed z).length ≤ (decimal z.natAbs).length + 1 := by
  unfold signed
  split
  · exact Nat.le_refl _
  · exact Nat.le_succ _

theorem length_padded_le (w : ℕ) (z : ℤ) :
    (padded w z).length ≤ w + (decimal z.natAbs).length + 1 := by
  unfold padded
  split
  · rw [List.length_cons, List.length_append, List.length_replicate]
    omega
  · rw [List.length_append, List.length_replicate]
    omega

theorem length_tag_le (level : Int32) : (tag level).length ≤ 8 := by
  have hall : ∀ i : ℕ, (kLevelTags.getD i []).length ≤ 8 := by
    intro i
    match i with
    | 0 | 1 | 2 | 3 => decide
    | _ + 4 => exact Nat.zero_le 8
  exact hall _

/-- Whatever the clock shows, the time and the tag take a small part of the buffer. -/
theorem length_prefixText_le (call : Call) : (prefixText call).length ≤ 200 := by
  have hyear := length_signed_le (call.clock.year + 1900).toInt
  have hyear' := length_decimal_int32 (call.clock.year + 1900)
  have htwo (z : Int32) : (padded 2 z.toInt).length ≤ 13 := by
    have h := length_padded_le 2 z.toInt
    have h' := length_decimal_int32 z
    omega
  have hmon := htwo (call.clock.mon + 1)
  have hmday := htwo call.clock.mday
  have hhour := htwo call.clock.hour
  have hmin := htwo call.clock.min
  have hsec := htwo call.clock.sec
  have husec := length_padded_le 6 call.clock.usec.toInt
  have husec' := length_decimal_int64 call.clock.usec
  have htag := length_tag_le call.level
  simp only [prefixText, List.length_append, List.length_cons, List.length_nil]
  omega

/-- A log that `init` has set up. -/
structure Ready (log : Log) : Prop where
  closeLog : log.closeLog = 0
  logBufSize : log.logBufSize = 2000
  splitLines : log.splitLines = 800000
  buf : log.buf = .valid

theorem clampMessage_bounds {room : ℤ} (h : 2 ≤ room) (printed : Int32) :
    0 ≤ clampMessage room printed ∧ clampMessage room printed ≤ room - 2 := by
  rw [clampMessage]
  split <;> split <;> omega

theorem formatLine_safe {log : Log} (h : Ready log) (call : Call) :
    ∀ a ∈ log.formatLine call, a.Safe log.logBufSize.toInt := by
  have hprefix := length_prefixText_le call
  have hsize : log.logBufSize.toInt = 2000 := by
    rw [h.logBufSize]
    rfl
  have hvalid : log.buf ≠ .null := by
    rw [h.buf]
    exact fun hnull => Pointer.noConfusion hnull
  have hroom : ((log.logBufSize.toInt - (prefixText call).length - 1) % 2 ^ 64 : ℤ) =
      1999 - (prefixText call).length := by
    rw [hsize, Int.emod_eq_of_lt (by omega) (by omega)]
    omega
  have hbounds := @clampMessage_bounds (2000 - (prefixText call).length) (by omega) call.printed
  intro a ha
  simp only [Log.formatLine, List.mem_cons, List.not_mem_nil, or_false] at ha
  rcases ha with rfl | rfl | rfl | rfl
  · refine ⟨hvalid, Int.le_refl 0, ?_⟩
    rw [hsize]
    decide
  · refine ⟨hvalid, by omega, ?_⟩
    rw [hroom, hsize]
    omega
  · rw [hsize]
    exact ⟨hvalid, by omega, by omega⟩
  · rw [hsize]
    exact ⟨hvalid, by omega, by omega⟩

/-! ## The rotation -/

theorem ne_null_iff {p : Pointer} : p ≠ .null ↔ p = .valid := by
  cases p with
  | null => exact iff_of_false (fun h => h rfl) fun h => Pointer.noConfusion h
  | valid => exact iff_of_true (fun h => Pointer.noConfusion h) rfl

theorem Ready.counted {log : Log} (h : Ready log) : Ready log.counted :=
  ⟨h.closeLog, h.logBufSize, h.splitLines, h.buf⟩

theorem Ready.due_iff {log : Log} (h : Ready log) (call : Call) :
    log.counted.Due call ↔ Rotates log.today log.count call := by
  have hsplit : log.counted.splitLines.toInt64 = 800000 := by
    rw [h.counted.splitLines]
    rfl
  rw [Log.Due, hsplit]
  exact Iff.rfl

/-- The log behind the rotation. -/
structure Rotated (log next : Log) (call : Call) : Prop where
  ready : Ready next
  today : next.today = call.clock.mday
  count : next.count = if log.today ≠ call.clock.mday then 0 else log.count
  fp : next.fp = if log.Due call then call.opened else log.fp

theorem rotateIfDue_rotated {log : Log} (h : Ready log) (call : Call) :
    Rotated log (log.rotateIfDue call).1 call := by
  by_cases hdue : log.Due call
  · rw [Log.rotateIfDue, if_pos hdue, Log.rotate]
    by_cases hday : log.today ≠ call.clock.mday
    · rw [if_pos hday]
      exact ⟨⟨h.closeLog, h.logBufSize, h.splitLines, h.buf⟩, rfl, (if_pos hday).symm,
        (if_pos hdue).symm⟩
    · rw [if_neg hday]
      exact ⟨⟨h.closeLog, h.logBufSize, h.splitLines, h.buf⟩, not_not.mp hday,
        (if_neg hday).symm, (if_pos hdue).symm⟩
  · have hday : ¬log.today ≠ call.clock.mday := fun hne => hdue (.inl hne)
    rw [Log.rotateIfDue, if_neg hdue]
    exact ⟨h, not_not.mp hday, (if_neg hday).symm, (if_neg hdue).symm⟩

/-- The rotation is safe when there is a file to close. -/
theorem rotateIfDue_safe_iff {log : Log} (h : Ready log) (call : Call) (size : ℤ) :
    (∀ a ∈ (log.rotateIfDue call).2, a.Safe size) ↔ (log.Due call → log.fp = .valid) := by
  have hsplit : log.splitLines ≠ 0 := by
    rw [h.splitLines]
    decide
  have htest : ∀ a ∈ (if log.today ≠ call.clock.mday then [] else [.modulo log.splitLines]),
      Action.Safe size a := by
    split
    · exact List.forall_mem_nil _
    · exact fun a ha => List.mem_singleton.mp ha ▸ hsplit
  by_cases hdue : log.Due call
  · rw [Log.rotateIfDue, if_pos hdue, forall_prop_of_true hdue, List.forall_mem_append,
      and_iff_right htest, ← ne_null_iff, Log.rotate]
    split
    · simp only [List.forall_mem_cons, Action.Safe, List.not_mem_nil, false_implies,
        implies_true, true_and, and_true]
    · simp only [List.forall_mem_cons, Action.Safe, List.not_mem_nil, false_implies,
        implies_true, true_and, and_true, and_iff_left hsplit]
  · rw [Log.rotateIfDue, if_neg hdue]
    exact iff_of_true htest fun hyes => absurd hyes hdue

/-! ## Calls -/

theorem deliver_safe (log : Log) (call : Call) (size : ℤ) :
    ∀ a ∈ log.deliver call, a.Safe size := by
  refine List.forall_mem_append.mpr ⟨?_, ?_⟩
  · split
    · next hfile =>
      have hvalid := of_decide_eq_true (Bool.and_eq_true_iff.mp hfile).2
      exact List.forall_mem_cons.mpr ⟨ne_null_iff.mpr hvalid,
        List.forall_mem_cons.mpr ⟨trivial, List.forall_mem_nil _⟩⟩
    · exact List.forall_mem_nil _
  · split
    · exact List.forall_mem_cons.mpr ⟨trivial, List.forall_mem_nil _⟩
    · exact List.forall_mem_nil _

theorem Ready.writeLog {log : Log} (h : Ready log) (call : Call) :
    log.writeLog call = ((log.counted.rotateIfDue call).1, (log.counted.rotateIfDue call).2 ++
      (log.counted.rotateIfDue call).1.formatLine call ++
      (log.counted.rotateIfDue call).1.deliver call) := by
  rw [Log.writeLog, if_neg (not_not.mpr h.closeLog)]

/-- A call is safe unless it closes a file that could not be opened. -/
theorem writeLog_safe_iff {log : Log} (h : Ready log) (call : Call) :
    (∀ a ∈ (log.writeLog call).2, a.Safe log.logBufSize.toInt) ↔
      (Rotates log.today log.count call → log.fp = .valid) := by
  have hready := (rotateIfDue_rotated h.counted call).ready
  have hsize : log.logBufSize = (log.counted.rotateIfDue call).1.logBufSize := by
    rw [h.logBufSize, hready.logBufSize]
  have hformat := formatLine_safe hready call
  rw [← hsize] at hformat
  rw [h.writeLog, List.forall_mem_append, List.forall_mem_append,
    rotateIfDue_safe_iff h.counted, and_iff_left (deliver_safe _ _ _), and_iff_left hformat,
    h.due_iff]
  exact Iff.rfl

/-- The calls are followed by the day, the count and the file of the log. -/
theorem safeFrom_ready {log : Log} (h : Ready log) (calls : List Call) :
    SafeFrom log calls ↔ NeverAfterFailure log.today log.count log.fp calls := by
  induction calls generalizing log with
  | nil => exact Iff.rfl
  | cons call calls ih =>
    have hrotated := rotateIfDue_rotated h.counted call
    have hnext : (log.writeLog call).1 = (log.counted.rotateIfDue call).1 := by rw [h.writeLog]
    rw [SafeFrom, writeLog_safe_iff h, hnext, ih hrotated.ready, hrotated.today, hrotated.count,
      hrotated.fp, NeverAfterFailure]
    by_cases hrotates : Rotates log.today log.count call
    · rw [if_pos hrotates, if_pos ((h.due_iff call).mpr hrotates), forall_prop_of_true hrotates]
      exact Iff.rfl
    · have hsame : log.today = call.clock.mday := not_not.mp fun hne => hrotates (.inl hne)
      have hcounted : log.counted.today = call.clock.mday := hsame
      rw [if_neg hrotates, if_neg fun hdue => hrotates ((h.due_iff call).mp hdue),
        if_neg (not_not.mpr hcounted), ← hsame]
      exact and_iff_right fun hyes => absurd hyes hrotates

theorem ready_logWrite {s : Startup} (h : s.closeLog = 0) : Ready (WebServer.logWrite s) := by
  rw [WebServer.logWrite, if_pos h.symm]
  split
  · exact ⟨h, rfl, rfl, rfl⟩
  · exact ⟨h, rfl, rfl, rfl⟩

theorem rotateIfDue_buf (log : Log) (call : Call) : (log.rotateIfDue call).1.buf = log.buf := by
  rw [Log.rotateIfDue]
  split
  · rw [Log.rotate]
    split
    · rfl
    · rfl
  · rfl

/-- Without `init` the first line is formatted into the null buffer. -/
theorem not_safeFrom_new (call : Call) (calls : List Call) : ¬SafeFrom Log.new (call :: calls) := by
  intro h
  have hbuf : (Log.new.counted.rotateIfDue call).1.buf = .null := rotateIfDue_buf _ _
  have hformat : Action.format .null 0 48 ∈ (Log.new.writeLog call).2 := by
    refine List.mem_append_left _ (List.mem_append_right _ ?_)
    rw [Log.formatLine, hbuf]
    exact List.mem_cons_self
  exact (h.1 _ hformat).1 rfl

theorem neverAfterFailure_of_opened {calls : List Call} (h : ∀ call ∈ calls, call.opened = .valid)
    (today : Int32) (count : Int64) : NeverAfterFailure today count .valid calls := by
  induction calls generalizing today count with
  | nil => trivial
  | cons call calls ih =>
    obtain ⟨hcall, hcalls⟩ := List.forall_mem_cons.mp h
    rw [NeverAfterFailure, hcall]
    split
    · exact ⟨rfl, ih hcalls _ _⟩
    · exact ih hcalls _ _

/-- With logging on and every file opened, the writes are safe on any days. -/
theorem safe_of_opened {s : Startup} (hon : s.closeLog = 0) (hstart : s.opened = .valid)
    {calls : List Call} (h : ∀ call ∈ calls, call.opened = .valid) :
    SafeFrom (WebServer.logWrite s) calls := by
  have hfp : (WebServer.logWrite s).fp = .valid := by
    rw [WebServer.logWrite, if_pos hon.symm]
    split
    · exact hstart
    · exact hstart
  rw [safeFrom_ready (ready_logWrite hon), hfp]
  exact neverAfterFailure_of_opened h _ _

/-- The writes are safe when logging is on and no call starts a new file after one that
could not be opened. -/
theorem logging_safe_iff (s : Startup) (calls : List Call) :
    SafeFrom (WebServer.logWrite s) calls ↔
      calls = [] ∨ s.closeLog = 0 ∧ NeverAfterFailure s.clock.mday 0 s.opened calls := by
  by_cases hclose : s.closeLog = 0
  · have hstart : (WebServer.logWrite s).today = s.clock.mday ∧
        (WebServer.logWrite s).count = 0 ∧ (WebServer.logWrite s).fp = s.opened := by
      rw [WebServer.logWrite, if_pos hclose.symm]
      split
      · exact ⟨rfl, rfl, rfl⟩
      · exact ⟨rfl, rfl, rfl⟩
    rw [safeFrom_ready (ready_logWrite hclose), hstart.1, hstart.2.1, hstart.2.2,
      and_iff_right hclose]
    refine ⟨.inr, fun h => h.elim (fun hnil => ?_) id⟩
    rw [hnil]
    trivial
  · rw [WebServer.logWrite, if_neg fun hzero => hclose hzero.symm]
    cases calls with
    | nil => exact iff_of_true trivial (.inl rfl)
    | cons call calls =>
      exact iff_of_false (not_safeFrom_new call calls)
        fun h => h.elim (fun hnil => List.cons_ne_nil _ _ hnil) fun hon => hclose hon.1

/-- With logging off, the first message closes a file that was never opened. -/
theorem log_off_unsafe : ¬∀ (s : Startup) (calls : List Call),
    SafeFrom (WebServer.logWrite s) calls := by
  intro h
  have hcall := h ⟨1, 0, ⟨124, 0, 15, 9, 30, 0, 0⟩, .valid⟩
    [⟨1, ⟨124, 0, 15, 9, 30, 0, 0⟩, 29, .valid, false⟩]
  exact hcall.1 (.fclose .null) (by decide) rfl

end Bookstore.Logging
