import WhileLang.Proofs.Budget

/-! Runs into a sink that fills up. The line of a state is written before the state is
left, so a sink that takes no more stops the machine at the very state whose line
was cut: nothing is lost, and a second run takes up there. How much of the trace
was kept is a matter of bytes, and how many steps were made is a matter of whole
lines; the two are tied together by `written`, which is the trace line by line
and is there also for a run that never ends. -/

namespace WhileLang

def Sink.Room (c : Option Nat) (size : Nat) : Prop := ∀ n, c = some n → size ≤ n

namespace Sink

variable {c : Option Nat} {n : Nat} {bytes : ByteArray} {text : String}

theorem Room.mono {k : Nat} (h : Room c n) (hk : k ≤ n) : Room c k := fun i hi => Nat.le_trans hk (h i hi)

theorem room_none (n : Nat) : Room none n := fun _ h => by cases h

theorem room_some {size : Nat} : Room (some n) size ↔ size ≤ n := by simp [Room]

theorem write_of_room (h : Room c (bytes ++ text.toUTF8).size) :
    write ⟨c, bytes⟩ text = (⟨c, bytes ++ text.toUTF8⟩, true) := by
  cases c with
  | none => rfl
  | some n =>
    rw [room_some, ByteArray.size_append] at h
    have hle : text.toUTF8.size ≤ n - bytes.size := by omega
    have hall : text.toUTF8.extract 0 (n - bytes.size) = text.toUTF8 := by
      rw [← Nat.max_eq_left hle, ByteArray.extract_zero_max_size]
    simp only [write, hall, hle, decide_true]

/-- What does not fit is cut off at the capacity. -/
theorem write_of_full (hb : bytes.size ≤ n) (h : n < (bytes ++ text.toUTF8).size) :
    write ⟨some n, bytes⟩ text = (⟨some n, (bytes ++ text.toUTF8).extract 0 n⟩, false) := by
  rw [ByteArray.size_append] at h
  have hcut : (bytes ++ text.toUTF8).extract 0 n = bytes ++ text.toUTF8.extract 0 (n - bytes.size) := by
    rw [ByteArray.extract_append, Nat.zero_sub, ← Nat.max_eq_left hb, ByteArray.extract_zero_max_size,
      Nat.max_eq_left hb]
  have hlt : ¬ text.toUTF8.size ≤ n - bytes.size := by omega
  simp only [write, hcut, hlt, decide_false]

end Sink

namespace Machine

variable {ν : Type} [Node ν] {m m' : Machine ν} {c : Option Nat} {bytes : ByteArray} {result : Except Stop Unit}
  {i k n fuel : Nat} {r : Ran ν}

/-- The bytes of the lines of the first `n` states that a run passes through, as far as there are any. -/
def written : Nat → Machine ν → ByteArray
  | 0, _ => .empty
  | n + 1, m =>
    m.line.toUTF8 ++
      match m.step with
      | (m', .ok ()) => written n m'
      | (_, .error _) => .empty

theorem line_size_pos (m : Machine ν) : 0 < m.line.toUTF8.size := by
  have h : m.line.toUTF8 = (Node.line m.env m.node).toUTF8 ++ "\n".toUTF8 := String.toByteArray_append
  have h1 : "\n".toUTF8.size = 1 := rfl
  rw [h, ByteArray.size_append]
  omega

/-- A machine goes on or halts. -/
theorem goes_or_halts [AtomicNode ν] (m : Machine ν) :
    (∃ m', m.reducible = true ∧ m.step = (m', .ok ())) ∨
      ∃ result stop, m.Halts result ∧ m.step = (m, .error stop) := by
  have hs := step_cases m
  generalize hp : m.step = p at hs
  cases hs with
  | ok _ hb => exact .inl ⟨_, LawfulNode.reducible_of_step hb, rfl⟩
  | spent _ _ | fault _ _ =>
    cases hr : m.reducible with
    | true => exact .inr ⟨_, _, .stopped hr hp, rfl⟩
    | false => exact .inr ⟨_, _, .done hr, rfl⟩

section
variable (hr : m.reducible = true) (hs : m.step = (m', .ok ()))
include hs

theorem written_of_step : m.written (n + 1) = m.line.toUTF8 ++ m'.written n := by
  rw [written, hs]

theorem after_of_step : m.after (n + 1) = m'.after n := by
  rw [after, hs]

include hr

theorem run_of_step (hroom : Sink.Room c (bytes ++ m.line.toUTF8).size) :
    m.run (fuel + 1) ⟨c, bytes⟩ = m'.run fuel ⟨c, bytes ++ m.line.toUTF8⟩ := by
  rw [run, Sink.write_of_room hroom]
  simp [hr, hs]

end

theorem written_of_error {stop : Stop} (hs : m.step = (m', .error stop)) : m.written (n + 1) = m.line.toUTF8 := by
  rw [written, hs, ByteArray.append_empty]

theorem after_of_error {stop : Stop} (hs : m.step = (m', .error stop)) : m.after (n + 1) = none := by
  rw [after, hs]

theorem run_of_halts (hh : m.Halts result) (hroom : Sink.Room c (bytes ++ m.line.toUTF8).size) :
    m.run (fuel + 1) ⟨c, bytes⟩ = some ⟨m, ⟨c, bytes ++ m.line.toUTF8⟩, result⟩ := by
  rw [run, Sink.write_of_room hroom]
  cases hh with
  | done hr => simp [hr]
  | stopped hr hs => simp [hr, hs]

theorem run_of_full (hb : bytes.size ≤ n) (h : n < (bytes ++ m.line.toUTF8).size) :
    m.run (fuel + 1) ⟨some n, bytes⟩ =
      some ⟨m, ⟨some n, (bytes ++ m.line.toUTF8).extract 0 n⟩, .error .sinkFull⟩ := by
  rw [run, Sink.write_of_full hb h]

/-! ### The lines of a run -/

theorem written_zero (m : Machine ν) : m.written 0 = .empty := rfl

theorem written_one [AtomicNode ν] (m : Machine ν) : m.written 1 = m.line.toUTF8 := by
  rcases goes_or_halts m with ⟨m', -, hs⟩ | ⟨-, stop, -, hs⟩
  · rw [written_of_step hs, written_zero, ByteArray.append_empty]
  · exact written_of_error hs

theorem written_add [AtomicNode ν] (h : m.after k = some m') (n : Nat) :
    m.written (k + n) = m.written k ++ m'.written n := by
  induction k generalizing m with
  | zero =>
    obtain rfl : m = m' := Option.some.inj h
    rw [Nat.zero_add, written_zero, ByteArray.empty_append]
  | succ k ih =>
    rcases goes_or_halts m with ⟨m₁, -, hs⟩ | ⟨-, stop, -, hs⟩
    · rw [after_of_step hs] at h
      rw [Nat.succ_add, written_of_step hs, written_of_step hs, ih h, ByteArray.append_assoc]
    · rw [after_of_error hs] at h
      cases h

theorem written_grows [AtomicNode ν] (hk : k ≤ n) (m : Machine ν) : ∃ rest, m.written n = m.written k ++ rest := by
  induction k generalizing m n with
  | zero => exact ⟨m.written n, by rw [written_zero, ByteArray.empty_append]⟩
  | succ k ih =>
    obtain ⟨n, rfl⟩ : ∃ i, n = i + 1 := ⟨n - 1, by omega⟩
    rcases goes_or_halts m with ⟨m', -, hs⟩ | ⟨-, stop, -, hs⟩
    · obtain ⟨rest, hrest⟩ := ih (Nat.le_of_succ_le_succ hk) m'
      exact ⟨rest, by rw [written_of_step hs, written_of_step hs, hrest, ByteArray.append_assoc]⟩
    · exact ⟨.empty, by rw [written_of_error hs, written_of_error hs, ByteArray.append_empty]⟩

theorem size_written_le [AtomicNode ν] (hk : k ≤ n) (m : Machine ν) : (m.written k).size ≤ (m.written n).size := by
  obtain ⟨rest, hrest⟩ := written_grows hk m
  rw [hrest, ByteArray.size_append]
  exact Nat.le_add_right _ _

/-- All texts of the trace that are long enough begin with the same bytes. -/
theorem written_extract [AtomicNode ν] {k n N : Nat} (hk : N ≤ (m.written k).size) (hn : N ≤ (m.written n).size) :
    (m.written k).extract 0 N = (m.written n).extract 0 N := by
  have hle : ∀ {i j : Nat}, i ≤ j → N ≤ (m.written i).size →
      (m.written j).extract 0 N = (m.written i).extract 0 N := by
    intro i j hij hi
    obtain ⟨rest, hrest⟩ := written_grows hij m
    rw [hrest, ByteArray.extract_append, Nat.zero_sub, Nat.sub_eq_zero_of_le hi, ByteArray.extract_same,
      ByteArray.append_empty]
  rcases Nat.le_total k n with h | h
  · exact (hle h hk).symm
  · exact hle h hn

theorem after_of_le [AtomicNode ν] (h : m.after k = some m') (hi : i ≤ k) : ∃ m₁, m.after i = some m₁ := by
  obtain ⟨hred, -, -, hbudget⟩ := after_iff.1 h
  obtain ⟨j, rfl⟩ := Nat.exists_eq_add_of_le hi
  rw [Node.reduct?_add, Option.bind_eq_some_iff] at hred
  obtain ⟨⟨b, env⟩, hb, -⟩ := hred
  refine ⟨⟨b, env, m.config, m.steps + .ofNat i⟩, after_iff.2 ⟨hb, rfl, rfl, ?_⟩⟩
  intro L hL
  have := hbudget L hL
  omega

/-- Where more than `N` bytes are written, some line is the first that does not fit. -/
theorem exists_cut [AtomicNode ν] {N : Nat} (h : N < (m.written n).size) :
    ∃ k m', m.after k = some m' ∧ (m.written k).size ≤ N ∧ N < (m.written (k + 1)).size := by
  induction n generalizing m N with
  | zero => exact absurd h (Nat.not_lt_zero N)
  | succ n ih =>
    by_cases hline : N < m.line.toUTF8.size
    · exact ⟨0, m, rfl, Nat.zero_le N, by rwa [written_one]⟩
    · rcases goes_or_halts m with ⟨m₁, -, hs⟩ | ⟨-, stop, -, hs⟩
      · rw [written_of_step hs, ByteArray.size_append] at h
        obtain ⟨k, m', hk, hle, hlt⟩ := ih (m := m₁) (N := N - m.line.toUTF8.size) (by omega)
        refine ⟨k + 1, m', by rw [after_of_step hs, hk], ?_, ?_⟩ <;>
          rw [written_of_step hs, ByteArray.size_append] <;> omega
      · rw [written_of_error hs] at h
        exact absurd h hline

/-! ### Runs and their lines -/

/-- A run whose first lines all fit is a run from the state behind them. -/
theorem run_add [AtomicNode ν] (h : m.after k = some m') (hroom : Sink.Room c (bytes ++ m.written k).size) :
    m.run (k + fuel) ⟨c, bytes⟩ = m'.run fuel ⟨c, bytes ++ m.written k⟩ := by
  induction k generalizing m bytes with
  | zero =>
    obtain rfl : m = m' := Option.some.inj h
    rw [Nat.zero_add, written_zero, ByteArray.append_empty]
  | succ k ih =>
    rcases goes_or_halts m with ⟨m₁, hr, hs⟩ | ⟨-, stop, -, hs⟩
    · rw [after_of_step hs] at h
      rw [written_of_step hs, ← ByteArray.append_assoc] at hroom ⊢
      have hline : Sink.Room c (bytes ++ m.line.toUTF8).size :=
        hroom.mono (by rw [ByteArray.size_append (a := bytes ++ m.line.toUTF8)]; exact Nat.le_add_right _ _)
      rw [Nat.succ_add, run_of_step hr hs hline, ih h hroom]
    · rw [after_of_error hs] at h
      cases h

theorem run_spent [AtomicNode ν] (h : m.after k = some m') (hroom : Sink.Room c (bytes ++ m.written k).size) :
    m.run k ⟨c, bytes⟩ = none :=
  show m.run (k + 0) ⟨c, bytes⟩ = m'.run 0 ⟨c, bytes ++ m.written k⟩ from run_add h hroom

/-- A run that ends has written all the lines that there are. -/
theorem run_written [AtomicNode ν] (h : m.run fuel ⟨none, bytes⟩ = some r) (hf : fuel ≤ n) :
    r.sink = ⟨none, bytes ++ m.written n⟩ := by
  induction fuel generalizing m bytes n with
  | zero => simp [run] at h
  | succ fuel ih =>
    obtain ⟨n, rfl⟩ : ∃ i, n = i + 1 := ⟨n - 1, by omega⟩
    rcases goes_or_halts m with ⟨m', hr, hs⟩ | ⟨result, stop, hh, hs⟩
    · rw [run_of_step hr hs (Sink.room_none _)] at h
      rw [ih h (Nat.le_of_succ_le_succ hf), written_of_step hs, ByteArray.append_assoc]
    · rw [run_of_halts hh (Sink.room_none _)] at h
      cases h
      rw [written_of_error hs]

/-- A run that does not end writes lines without end. -/
theorem le_size_written [AtomicNode ν] (h : m.run n ⟨none, bytes⟩ = none) : n ≤ (m.written n).size := by
  induction n generalizing m bytes with
  | zero => exact Nat.zero_le _
  | succ n ih =>
    rcases goes_or_halts m with ⟨m', hr, hs⟩ | ⟨result, stop, hh, hs⟩
    · rw [run_of_step hr hs (Sink.room_none _)] at h
      have hline := line_size_pos m
      have hrest := ih h
      rw [written_of_step hs, ByteArray.size_append]
      omega
    · rw [run_of_halts hh (Sink.room_none _)] at h
      cases h

/-- Where the whole trace fits, the capacity makes no difference. -/
theorem run_of_fits [AtomicNode ν] {N : Nat} (h : m.run fuel ⟨none, bytes⟩ = some r) (hN : r.sink.bytes.size ≤ N) :
    m.run fuel ⟨some N, bytes⟩ = some ⟨r.machine, ⟨some N, r.sink.bytes⟩, r.result⟩ := by
  induction fuel generalizing m bytes with
  | zero => simp [run] at h
  | succ fuel ih =>
    rcases goes_or_halts m with ⟨m', hr, hs⟩ | ⟨result, stop, hh, hs⟩
    · rw [run_of_step hr hs (Sink.room_none _)] at h
      have hline : Sink.Room (some N) (bytes ++ m.line.toUTF8).size := by
        rw [run_written h (Nat.le_refl fuel), ByteArray.size_append (a := bytes ++ m.line.toUTF8)] at hN
        exact Sink.room_some.2 (by omega)
      rw [run_of_step hr hs hline, ih h]
    · rw [run_of_halts hh (Sink.room_none _)] at h
      cases h
      exact run_of_halts hh (Sink.room_some.2 hN)

/-- What a sink without bounds holds already stays in front. -/
theorem run_behind [AtomicNode ν] (fuel : Nat) (m : Machine ν) (bytes more : ByteArray) :
    m.run fuel ⟨none, bytes ++ more⟩ =
      (m.run fuel ⟨none, more⟩).map fun r => ⟨r.machine, ⟨none, bytes ++ r.sink.bytes⟩, r.result⟩ := by
  induction fuel generalizing m more with
  | zero => rfl
  | succ fuel ih =>
    rcases goes_or_halts m with ⟨m', hr, hs⟩ | ⟨result, stop, hh, -⟩
    · rw [run_of_step hr hs (Sink.room_none _), run_of_step hr hs (Sink.room_none _), ByteArray.append_assoc, ih]
    · rw [run_of_halts hh (Sink.room_none _), run_of_halts hh (Sink.room_none _), ByteArray.append_assoc]
      rfl

/-- A run of `m` that the sink has cut off at `N` bytes after `k` steps. -/
structure CutOff (m : Machine ν) (N k : Nat) (r : Ran ν) : Prop where
  result : r.result = .error .sinkFull
  size : r.sink.bytes.size = N
  bytes : ∀ n, N ≤ (m.written n).size → r.sink.bytes = (m.written n).extract 0 N
  state : m.after k = some r.machine
  steps : r.machine.steps = m.steps + .ofNat k
  /-- There are as many steps as whole lines that fit. -/
  lines : ∀ i, i < k ↔ (∃ m', m.after i = some m') ∧ (m.written (i + 1)).size ≤ N
  /-- The next line is that of the state where the machine stands, and it is cut. -/
  line : m.written (k + 1) = m.written k ++ r.machine.line.toUTF8 ∧ N < (m.written (k + 1)).size
  /-- A second run ends as the first one would have ended, or both do not end. -/
  resumed : ∀ fuel, m.run (k + fuel) .unbounded = (r.machine.run fuel .unbounded).map fun r' =>
    ⟨r'.machine, ⟨none, m.written k ++ r'.sink.bytes⟩, r'.result⟩
  /-- It writes the line that was cut once more, in full. -/
  rewritten : ∀ n, ∃ rest, r.machine.written (n + 1) = r.machine.line.toUTF8 ++ rest

theorem exists_cutOff [AtomicNode ν] {N : Nat} (h : N < (m.written n).size) :
    ∃ k r, (∀ fuel, m.run fuel (.bounded N) = some r ↔ k < fuel) ∧ m.CutOff N k r := by
  obtain ⟨k, m', hk, hle, hlt⟩ := exists_cut h
  have hline : m.written (k + 1) = m.written k ++ m'.line.toUTF8 := by rw [written_add hk, written_one]
  refine ⟨k, ⟨m', ⟨some N, (m.written (k + 1)).extract 0 N⟩, .error .sinkFull⟩, ?_, ?_⟩
  · intro fuel
    have hroom : Sink.Room (some N) (ByteArray.empty ++ m.written k).size := by
      rw [ByteArray.empty_append]
      exact Sink.room_some.2 hle
    refine run_iff (run_spent hk hroom) ?_
    rw [Sink.bounded, run_add hk hroom, ByteArray.empty_append, run_of_full hle (by rwa [← hline]), ← hline]
  constructor
  · rfl
  · rw [ByteArray.size_extract]
    omega
  · intro n hn
    exact written_extract (Nat.le_of_lt hlt) hn
  · exact hk
  · exact (after_counts hk).2
  · intro i
    constructor
    · intro hi
      exact ⟨after_of_le hk (Nat.le_of_lt hi), Nat.le_trans (size_written_le hi m) hle⟩
    · rintro ⟨-, hfits⟩
      rcases Nat.lt_or_ge i k with hi | hi
      · exact hi
      · have := size_written_le (Nat.add_le_add_right hi 1) m
        omega
  · exact ⟨hline, hlt⟩
  · intro fuel
    have hbehind := run_behind fuel m' (m.written k) .empty
    rw [ByteArray.append_empty] at hbehind
    rw [Sink.unbounded, run_add hk (Sink.room_none _), ByteArray.empty_append, hbehind]
  · intro n
    obtain ⟨rest, hrest⟩ := written_grows (Nat.succ_le_succ (Nat.zero_le n)) m'
    exact ⟨rest, by rw [hrest, written_one]⟩

structure SinkSafe (m : Machine ν) (N : Nat) : Prop where
  /-- The lines are what a sink without bounds gets. -/
  whole : ∀ fuel r, m.run fuel .unbounded = some r → ∀ n, fuel ≤ n → r.sink.bytes = m.written n
  endless : (∀ fuel, m.run fuel .unbounded = none) → ∀ n, n ≤ (m.written n).size
  fits : (∀ n, (m.written n).size ≤ N) → ∃ k r, ∀ fuel, k ≤ fuel → m.run fuel .unbounded = some r ∧
    m.run fuel (.bounded N) = some ⟨r.machine, ⟨some N, r.sink.bytes⟩, r.result⟩
  /-- A run of `k` steps is one that needs more fuel than `k`. -/
  cut : ∀ n, N < (m.written n).size →
    ∃ k r, (∀ fuel, m.run fuel (.bounded N) = some r ↔ k < fuel) ∧ m.CutOff N k r

theorem sinkSafe [AtomicNode ν] (m : Machine ν) (N : Nat) : m.SinkSafe N := by
  have hwhole : ∀ fuel r, m.run fuel .unbounded = some r → ∀ n, fuel ≤ n → r.sink.bytes = m.written n := by
    intro fuel r h n hn
    rw [run_written h hn, ByteArray.empty_append]
  refine ⟨hwhole, fun h n => le_size_written (h n), ?_, fun n h => exists_cutOff h⟩
  intro hN
  -- a run that has not ended after N + 1 lines would not fit
  cases hrun : m.run (N + 1) .unbounded with
  | none => exact absurd (le_size_written hrun) (Nat.not_le.2 (Nat.lt_succ_of_le (hN _)))
  | some r =>
    refine ⟨N + 1, r, fun fuel hf => ?_⟩
    have hmore := run_mono hrun hf
    refine ⟨hmore, run_of_fits hmore ?_⟩
    rw [hwhole _ r hrun _ (Nat.le_refl _)]
    exact hN _

end Machine

/-- From every state and under every limit, for machines of both kinds. -/
theorem full_sink_loses_nothing :
    (∀ (m : Machine Stmt) (N : Nat), m.SinkSafe N) ∧ ∀ (m : Machine Expr) (N : Nat), m.SinkSafe N :=
  ⟨Machine.sinkSafe, Machine.sinkSafe⟩

/-- The first line takes 15 bytes and the second 11, so 20 bytes cut the second. -/
theorem line_cut_in_its_second_state :
    let s : Stmt := .assign "a\nb" (.binary .add (.lit (.num 1)) (.lit (.num 2)))
    let m : Machine Stmt := .start s .empty ⟨none⟩
    ∃ r, (∀ fuel, m.run fuel (.bounded 20) = some r ↔ 1 < fuel) ∧ m.CutOff 20 1 r := by
  intro s m
  have hfirst : (m.written 1).size = 15 := rfl
  have hsecond : (m.written 2).size = 26 := rfl
  obtain ⟨k, r, hrun, hcut⟩ := (full_sink_loses_nothing.1 m 20).cut 2 (by omega)
  have hlo : 0 < k := (hcut.lines 0).2 ⟨⟨m, rfl⟩, by rw [Nat.zero_add]; omega⟩
  have hhi : ¬ 1 < k := by
    intro h
    have hfits : (m.written 2).size ≤ 20 := ((hcut.lines 1).1 h).2
    omega
  obtain rfl : k = 1 := by omega
  exact ⟨r, hrun, hcut⟩

end WhileLang
