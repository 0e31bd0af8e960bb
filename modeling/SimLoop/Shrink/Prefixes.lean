/-
  Shrink/Prefixes.lean --- what the two binary searches find.

  Either search keeps one end on a candidate that is known to fail, so that what it
  returns fails as well, whatever the probe says about lengths in between.  With a probe
  that answers monotonically the other end rules out everything beyond it, and the two
  ends meet at the optimum.
-/
import SimLoop.Shrink.Minimality
import Mathlib.Data.Nat.Log

set_option autoImplicit false

namespace SimLoop.Shrink

open SimLoop.Foundation

/-- A probe of an interval of `n + 1` steps leaves at most half of `n`. -/
theorem clog_halve {n : Nat} (h : 0 < n) : Nat.clog 2 (n / 2 + 1) + 1 = Nat.clog 2 (n + 1) := by
  rw [Nat.clog_of_two_le (n := n + 1) (by omega) (by omega)]
  congr 2
  omega

section

variable (oracle : List Int → Bool) (recorded : List Int)

/-! ## The shortest prefix -/

/-- A longer prefix reproduces whatever a shorter one did. -/
def LengthMonotone : Prop :=
  ∀ m n, m ≤ n → n ≤ recorded.length → oracle (recorded.take m) = true →
    oracle (recorded.take n) = true

/-- The upper end is always accepted. -/
theorem shortestPrefixLoop_accepted (lo hi : Nat) (h : oracle (recorded.take hi) = true) :
    oracle (recorded.take ((shortestPrefixLoop recorded lo hi).answer oracle)) = true := by
  fun_induction shortestPrefixLoop recorded lo hi with
  | case1 lo hi hlt mid ihyes ihno =>
    rw [Probing.answer_ask]
    split
    · exact ihyes ‹_›
    · exact ihno h
  | case2 lo hi hlt => exact h

/-- Below the lower end nothing is accepted. -/
theorem shortestPrefixLoop_least (hmono : LengthMonotone oracle recorded) (lo hi : Nat)
    (hle : lo ≤ hi) (hhi : hi ≤ recorded.length)
    (hbelow : ∀ m < lo, oracle (recorded.take m) = false) :
    ∀ m < (shortestPrefixLoop recorded lo hi).answer oracle,
      oracle (recorded.take m) = false := by
  fun_induction shortestPrefixLoop recorded lo hi with
  | case1 lo hi hlt mid ihyes ihno =>
    rw [Probing.answer_ask]
    split
    · exact ihyes (by omega) (by omega) hbelow
    · rename_i hno
      refine ihno (by omega) hhi fun m hm => ?_
      by_contra hyes
      exact hno (hmono m mid (by omega) (by omega) (Bool.of_not_eq_false hyes))
  | case2 lo hi hlt =>
    obtain rfl : lo = hi := by omega
    exact hbelow

theorem length_asked_shortestPrefixLoop (lo hi : Nat) :
    ((shortestPrefixLoop recorded lo hi).asked oracle).length ≤ Nat.clog 2 (hi - lo + 1) := by
  fun_induction shortestPrefixLoop recorded lo hi with
  | case1 lo hi hlt mid ihyes ihno =>
    rw [Probing.asked_ask, List.length_cons, ← clog_halve (show 0 < hi - lo by omega)]
    refine Nat.succ_le_succ ?_
    split
    · exact ihyes.trans (Nat.clog_mono_right 2 (by omega))
    · exact ihno.trans (Nat.clog_mono_right 2 (by omega))
  | case2 lo hi hlt => exact Nat.zero_le _

/-! ## The FIFO prefix -/

/-- The candidate of `length` steps that runs FIFO before `start`. -/
def fifoBefore (length start : Nat) : List Int := candidate recorded length (steps start length)

/-- A shorter FIFO prefix reproduces whatever a longer one did. -/
def FifoAntitone (length : Nat) : Prop :=
  ∀ p q, p ≤ q → q ≤ length → oracle (fifoBefore recorded length q) = true →
    oracle (fifoBefore recorded length p) = true

theorem fifoPrefixLoop_le (length lo hi : Nat) (hle : lo ≤ hi) :
    (fifoPrefixLoop recorded length lo hi).answer oracle ≤ hi := by
  fun_induction fifoPrefixLoop recorded length lo hi with
  | case1 lo hi hlt mid ihyes ihno =>
    rw [Probing.answer_ask]
    split
    · exact ihyes (by omega)
    · exact (ihno (by omega)).trans (by omega)
  | case2 lo hi hlt => exact hle

/-- The lower end is always accepted. -/
theorem fifoPrefixLoop_accepted (length lo hi : Nat)
    (h : oracle (fifoBefore recorded length lo) = true) :
    oracle (fifoBefore recorded length ((fifoPrefixLoop recorded length lo hi).answer oracle)) =
      true := by
  fun_induction fifoPrefixLoop recorded length lo hi with
  | case1 lo hi hlt mid ihyes ihno =>
    rw [Probing.answer_ask]
    split
    · exact ihyes ‹_›
    · exact ihno h
  | case2 lo hi hlt => exact h

/-- Above the upper end nothing is accepted. -/
theorem fifoPrefixLoop_greatest (length lo hi : Nat) (hanti : FifoAntitone oracle recorded length)
    (hle : lo ≤ hi) (hhi : hi ≤ length)
    (habove : ∀ q ≤ length, hi < q → oracle (fifoBefore recorded length q) = false) :
    ∀ q ≤ length, (fifoPrefixLoop recorded length lo hi).answer oracle < q →
      oracle (fifoBefore recorded length q) = false := by
  fun_induction fifoPrefixLoop recorded length lo hi with
  | case1 lo hi hlt mid ihyes ihno =>
    rw [Probing.answer_ask]
    split
    · exact ihyes (by omega) hhi habove
    · rename_i hno
      refine ihno (by omega) (by omega) fun q hq hmid => ?_
      by_contra hyes
      exact hno (hanti mid q (by omega) hq (Bool.of_not_eq_false hyes))
  | case2 lo hi hlt =>
    obtain rfl : lo = hi := by omega
    exact habove

theorem length_asked_fifoPrefixLoop (length lo hi : Nat) :
    ((fifoPrefixLoop recorded length lo hi).asked oracle).length ≤ Nat.clog 2 (hi - lo + 1) := by
  fun_induction fifoPrefixLoop recorded length lo hi with
  | case1 lo hi hlt mid ihyes ihno =>
    rw [Probing.asked_ask, List.length_cons, ← clog_halve (show 0 < hi - lo by omega)]
    refine Nat.succ_le_succ ?_
    split
    · exact ihyes.trans (Nat.clog_mono_right 2 (by omega))
    · exact ihno.trans (Nat.clog_mono_right 2 (by omega))
  | case2 lo hi hlt => exact Nat.zero_le _

end

/-! ## Both searches -/

/-- **The two binary searches are sound, and exact for a monotone probe.**  The length that
`_shortest_prefix` returns is accepted; from an accepted length, `_fifo_prefix` returns a
start that is accepted. -/
theorem prefixes_exact (oracle : List Int → Bool) (recorded : List Int)
    (hrecorded : oracle recorded = true) :
    let shortest := (shortestPrefix recorded).answer oracle
    shortest ≤ recorded.length ∧ oracle (recorded.take shortest) = true ∧
      (LengthMonotone oracle recorded →
        ∀ m, oracle (recorded.take m) = true → shortest ≤ m) ∧
      ((shortestPrefix recorded).asked oracle).length ≤ Nat.clog 2 (recorded.length + 1) ∧
      ∀ length ≤ recorded.length, oracle (recorded.take length) = true →
        let start := (fifoPrefix recorded length).answer oracle
        start ≤ length ∧ oracle (candidate recorded length (steps start length)) = true ∧
          (FifoAntitone oracle recorded length →
            ∀ q ≤ length, oracle (candidate recorded length (steps q length)) = true →
              q ≤ start) ∧
          ((fifoPrefix recorded length).asked oracle).length ≤ Nat.clog 2 (length + 1) := by
  refine ⟨shortestPrefixLoop_le oracle recorded 0 _, ?_, fun hmono m hm => ?_,
    length_asked_shortestPrefixLoop oracle recorded 0 _, fun length hlength haccepted =>
      ⟨fifoPrefixLoop_le oracle recorded length 0 _ (Nat.zero_le _), ?_, fun hanti q hq hyes => ?_,
        length_asked_fifoPrefixLoop oracle recorded length 0 _⟩⟩
  · refine shortestPrefixLoop_accepted oracle recorded 0 _ ?_
    rwa [List.take_length]
  · by_contra hlt
    have hno := shortestPrefixLoop_least oracle recorded hmono 0 recorded.length (Nat.zero_le _)
      (le_refl _) (fun m hm => absurd hm (Nat.not_lt_zero m)) m (Nat.lt_of_not_le hlt)
    rw [hm] at hno
    cases hno
  · refine fifoPrefixLoop_accepted oracle recorded length 0 length ?_
    rwa [fifoBefore, candidate_steps_zero hlength]
  · by_contra hlt
    have hno := fifoPrefixLoop_greatest oracle recorded length 0 length hanti (Nat.zero_le _)
      (le_refl _) (fun q hq hlt => absurd hq (Nat.not_le_of_lt hlt)) q hq (Nat.lt_of_not_le hlt)
    rw [fifoBefore, hyes] at hno
    cases hno

/-- A probe that wants the recorded choice of step 2. -/
def wantsThird (choices : List Int) : Bool := choices.getD 2 0 = 1

theorem prefixes_exact_wantsThird :
    (shortestPrefix [1, 0, 1, 1]).answer wantsThird = 3 ∧
      (fifoPrefix [1, 0, 1, 1] 3).answer wantsThird = 2 ∧
      ((fifoPrefix [1, 0, 1, 1] 3).asked wantsThird).length ≤ Nat.clog 2 (3 + 1) := by
  obtain ⟨hle, hyes, hleast, -, hfifo⟩ := prefixes_exact wantsThird [1, 0, 1, 1] rfl
  obtain ⟨hstart, hstarted, hgreatest, hcount⟩ := hfifo 3 (by decide) rfl
  have hprefixes : ∀ m ≤ 4, wantsThird (([1, 0, 1, 1] : List Int).take m) = decide (3 ≤ m) := by
    decide
  have hstarts : ∀ q ≤ 3, wantsThird (candidate [1, 0, 1, 1] 3 (steps q 3)) = decide (q ≤ 2) := by
    decide
  have hmono : LengthMonotone wantsThird [1, 0, 1, 1] := fun m n hmn hn hm => by
    rw [hprefixes m (hmn.trans hn), decide_eq_true_eq] at hm
    rw [hprefixes n hn, decide_eq_true_eq]
    exact hm.trans hmn
  have hanti : FifoAntitone wantsThird [1, 0, 1, 1] 3 := fun p q hpq hq hyes => by
    rw [fifoBefore, hstarts q hq, decide_eq_true_eq] at hyes
    rw [fifoBefore, hstarts p (hpq.trans hq), decide_eq_true_eq]
    exact hpq.trans hyes
  rw [hprefixes _ hle, decide_eq_true_eq] at hyes
  rw [hstarts _ hstart, decide_eq_true_eq] at hstarted
  exact ⟨le_antisymm (hleast hmono 3 rfl) hyes,
    le_antisymm hstarted (hgreatest hanti 2 (by decide) rfl), hcount⟩

end SimLoop.Shrink
