/-
Little-endian words in a byte-addressed 32-bit memory, and runs of words on a stack: what a store
leaves, and what is where after a push and a pop. Addresses wrap around.
-/
import Mathlib.Data.UInt

namespace Words

/-- A byte for every address. -/
abbrev Memory := UInt32 → UInt8

/-- Byte `k` of a word, the lowest first. -/
def byte (x : UInt32) (k : Nat) : UInt8 := UInt8.ofNat (x.toNat / 256 ^ k)

def read (m : Memory) (a : UInt32) : UInt32 :=
  UInt32.ofNat ((m a).toNat + 256 * (m (a + 1)).toNat + 256 ^ 2 * (m (a + 2)).toNat + 256 ^ 3 * (m (a + 3)).toNat)

def write (m : Memory) (a x : UInt32) : Memory :=
  fun p => if (p - a).toNat < 4 then byte x (p - a).toNat else m p

/-! ## Single words -/

theorem toNat_add_sub (a b : UInt32) {k : Nat} (hk : (b - a).toNat + k < 2 ^ 32) :
    (b + UInt32.ofNat k - a).toNat = (b - a).toNat + k := by
  have h : b + UInt32.ofNat k - a = b - a + UInt32.ofNat k := by grind
  rw [h, UInt32.toNat_add, UInt32.toNat_ofNat']
  omega

theorem write_inside (m : Memory) (a x : UInt32) {k : Nat} (hk : k < 4) :
    write m a x (a + UInt32.ofNat k) = byte x k := by
  have h0 : (a - a).toNat = 0 := by rw [UInt32.sub_self]; rfl
  have hd := toNat_add_sub a a (k := k) (by omega)
  rw [h0, Nat.zero_add] at hd
  rw [write, hd, if_pos hk]

/-- The words at `a` and `b` do not share a byte. -/
def Apart (a b : UInt32) : Prop := 4 ≤ (b - a).toNat ∧ (b - a).toNat ≤ 2 ^ 32 - 4

theorem write_outside (m : Memory) {a b : UInt32} (x : UInt32) (h : Apart a b) {k : Nat} (hk : k < 4) :
    write m a x (b + UInt32.ofNat k) = m (b + UInt32.ofNat k) := by
  obtain ⟨h1, h2⟩ := h
  have hd := toNat_add_sub a b (k := k) (by omega)
  rw [write, if_neg (by omega)]

theorem read_write_self (m : Memory) (a x : UInt32) : read (write m a x) a = x := by
  have h0 : write m a x a = byte x 0 := by
    have := write_inside m a x (k := 0) (by decide)
    rwa [show a + UInt32.ofNat 0 = a from UInt32.add_zero a] at this
  have h1 : write m a x (a + 1) = byte x 1 := write_inside m a x (by decide)
  have h2 : write m a x (a + 2) = byte x 2 := write_inside m a x (by decide)
  have h3 : write m a x (a + 3) = byte x 3 := write_inside m a x (by decide)
  have hx := x.toNat_lt
  apply UInt32.toNat_inj.1
  rw [read, h0, h1, h2, h3, UInt32.toNat_ofNat']
  unfold byte
  simp only [UInt8.toNat_ofNat']
  omega

theorem read_write_apart (m : Memory) {a b : UInt32} (x : UInt32) (h : Apart a b) :
    read (write m a x) b = read m b := by
  have h0 : write m a x b = m b := by
    have := write_outside m x h (k := 0) (by decide)
    rwa [show b + UInt32.ofNat 0 = b from UInt32.add_zero b] at this
  have h1 : write m a x (b + 1) = m (b + 1) := write_outside m x h (k := 1) (by decide)
  have h2 : write m a x (b + 2) = m (b + 2) := write_outside m x h (k := 2) (by decide)
  have h3 : write m a x (b + 3) = m (b + 3) := write_outside m x h (k := 3) (by decide)
  rw [read, read, h0, h1, h2, h3]

/-! ## Runs of words -/

/-- The words `ws` stand in memory from address `a` on. -/
def Holds (m : Memory) (a : UInt32) : List UInt32 → Prop
  | [] => True
  | w :: ws => read m a = w ∧ Holds m (a + 4) ws

theorem Holds.left {m : Memory} :
    ∀ {a : UInt32} {ws : List UInt32} {vs : List UInt32}, Holds m a (ws ++ vs) → Holds m a ws
  | _, [], _, _ => trivial
  | _, _ :: _, _, ⟨h, hrest⟩ => ⟨h, hrest.left⟩

/-- The word at index `i`. -/
theorem Holds.getElem {m : Memory} : ∀ {a : UInt32} {ws : List UInt32}, Holds m a ws → ∀ (i : Nat) (w : UInt32),
    ws[i]? = some w → read m (a + 4 * UInt32.ofNat i) = w
  | a, v :: ws, ⟨h, _⟩, 0, w, hw => by
    rw [show a + 4 * UInt32.ofNat 0 = a from UInt32.add_zero a, h]
    simpa using hw
  | a, v :: ws, ⟨_, h⟩, i + 1, w, hw => by
    have hi : a + 4 * UInt32.ofNat (i + 1) = a + 4 + 4 * UInt32.ofNat i := by
      rw [UInt32.ofNat_add]
      grind
    rw [hi]
    exact h.getElem i w (by simpa using hw)

/-- Memories that agree on a run of words hold the same there. -/
theorem Holds.congr {m m' : Memory} : ∀ {a : UInt32} {ws : List UInt32}, Holds m a ws →
    (∀ i < ws.length, read m' (a + 4 * UInt32.ofNat i) = read m (a + 4 * UInt32.ofNat i)) → Holds m' a ws
  | _, [], _, _ => trivial
  | a, w :: ws, ⟨h, hrest⟩, hm => by
    refine ⟨?_, hrest.congr fun i hi => ?_⟩
    · have h0 := hm 0 (Nat.zero_lt_succ _)
      rw [show a + 4 * UInt32.ofNat 0 = a from UInt32.add_zero a] at h0
      rw [h0, h]
    · have hi' : a + 4 + 4 * UInt32.ofNat i = a + 4 * UInt32.ofNat (i + 1) := by
        rw [UInt32.ofNat_add]
        grind
      rw [hi']
      exact hm (i + 1) (Nat.succ_lt_succ hi)

/-- A push: the new word in front, the others where they were. -/
theorem Holds.push {m : Memory} {a : UInt32} {ws : List UInt32} (h : Holds m a ws)
    (hlen : ws.length < 2 ^ 29) (x : UInt32) :
    Holds (write m (a - 4) x) (a - 4) (x :: ws) := by
  have hback : a - 4 + 4 = a := by grind
  refine ⟨read_write_self m (a - 4) x, ?_⟩
  rw [hback]
  refine h.congr fun i hi => read_write_apart m x ?_
  have hd : a + 4 * UInt32.ofNat i - (a - 4) = 4 * UInt32.ofNat (i + 1) := by
    rw [UInt32.ofNat_add]
    grind
  have hn : (4 * UInt32.ofNat (i + 1)).toNat = 4 * (i + 1) := by
    rw [UInt32.toNat_mul, UInt32.toNat_ofNat', show (4 : UInt32).toNat = 4 by rfl]
    omega
  unfold Apart
  rw [hd, hn]
  omega

/-- What has been pushed since the stack pointer was `base`, the latest first. -/
structure Pushed (m : Memory) (base top : UInt32) (ws : List UInt32) : Prop where
  holds : Holds m top ws
  top_eq : top = base - 4 * UInt32.ofNat ws.length

theorem Pushed.nil (m : Memory) (base : UInt32) : Pushed m base base [] := by
  refine ⟨trivial, ?_⟩
  rw [List.length_nil, show UInt32.ofNat 0 = 0 from rfl, UInt32.mul_zero, UInt32.sub_zero]

theorem Pushed.push {m : Memory} {base top : UInt32} {ws : List UInt32} (h : Pushed m base top ws)
    (hlen : ws.length < 2 ^ 29) (x : UInt32) : Pushed (write m (top - 4) x) base (top - 4) (x :: ws) := by
  refine ⟨h.holds.push hlen x, ?_⟩
  rw [h.top_eq, List.length_cons, UInt32.ofNat_add]
  grind

end Words
