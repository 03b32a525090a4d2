import Mathlib.Data.List.Basic
import Mathlib.Data.List.Induction

/-!
# Lists laid over a store

A store is a total function on addresses. `overlay m base xs` is the store `m`
with `xs` written to consecutive addresses from `base` on.
-/
namespace Overlay

variable {β : Type*}

def overlay (m : Nat → β) (base : Nat) (xs : List β) : Nat → β :=
  fun a => if base ≤ a then (xs[a - base]?).getD (m a) else m a

@[simp] theorem overlay_nil (m : Nat → β) (base : Nat) : overlay m base [] = m := by
  funext a
  simp [overlay]

theorem overlay_below (m : Nat → β) {base a : Nat} (xs : List β) (h : a < base) :
    overlay m base xs a = m a := by
  simp [overlay, show ¬ base ≤ a by omega]

theorem overlay_above (m : Nat → β) {base a : Nat} (xs : List β) (h : base + xs.length ≤ a) :
    overlay m base xs a = m a := by
  have hlen : xs.length ≤ a - base := by omega
  simp [overlay, List.getElem?_eq_none hlen]

theorem overlay_inside (m : Nat → β) (base : Nat) (xs : List β) {i : Nat} (h : i < xs.length) :
    overlay m base xs (base + i) = xs[i] := by
  simp [overlay, List.getElem?_eq_getElem h]

/-- Only the addresses of the list can change. -/
theorem overlay_outside (m : Nat → β) {base a : Nat} (xs : List β)
    (h : ¬ (base ≤ a ∧ a < base + xs.length)) : overlay m base xs a = m a := by
  by_cases hlow : a < base
  · exact overlay_below m xs hlow
  · exact overlay_above m xs (by omega)

/-- Two adjacent writes are one. -/
theorem overlay_append (m : Nat → β) (base : Nat) (xs ys : List β) :
    overlay (overlay m base xs) (base + xs.length) ys = overlay m base (xs ++ ys) := by
  funext a
  by_cases hlow : a < base + xs.length
  · rw [overlay_below _ _ hlow]
    by_cases hb : base ≤ a
    · simp [overlay, hb, List.getElem?_append_left (show a - base < xs.length by omega)]
    · simp [overlay, hb]
  · have hright : xs.length ≤ a - base := by omega
    have hsub : a - (base + xs.length) = a - base - xs.length := by omega
    simp only [overlay, show base ≤ a by omega, show base + xs.length ≤ a by omega, ↓reduceIte,
      List.getElem?_append_right hright, hsub, List.getElem?_eq_none hright, Option.getD_none]

/-- A write that covers an earlier one hides it. -/
theorem overlay_overlay (m : Nat → β) (base : Nat) {xs ys : List β} (h : xs.length ≤ ys.length) :
    overlay (overlay m base xs) base ys = overlay m base ys := by
  funext a
  by_cases ha : base ≤ a ∧ a < base + ys.length
  · have hlt : a - base < ys.length := by omega
    simp [overlay, ha.1, List.getElem?_eq_getElem hlt]
  · rw [overlay_outside _ ys ha, overlay_outside _ ys ha, overlay_outside _ xs (by omega)]

/-- Several lists laid one after the other, each with its base. -/
def overlays (m : Nat → β) (ws : List (Nat × List β)) : Nat → β :=
  ws.foldl (fun m w => overlay m w.1 w.2) m

@[simp] theorem overlays_nil (m : Nat → β) : overlays m [] = m := rfl

@[simp] theorem overlays_append (m : Nat → β) (ws vs : List (Nat × List β)) :
    overlays m (ws ++ vs) = overlays (overlays m ws) vs := by simp [overlays]

@[simp] theorem overlays_cons (m : Nat → β) (w : Nat × List β) (ws : List (Nat × List β)) :
    overlays m (w :: ws) = overlays (overlay m w.1 w.2) ws := rfl

theorem overlays_outside (m : Nat → β) {ws : List (Nat × List β)} {a : Nat}
    (h : ∀ w ∈ ws, ¬ (w.1 ≤ a ∧ a < w.1 + w.2.length)) : overlays m ws a = m a := by
  induction ws generalizing m with
  | nil => rfl
  | cons w ws ih =>
    rw [overlays_cons, ih _ fun v hv => h v (List.mem_cons_of_mem w hv)]
    exact overlay_outside m w.2 (h w (List.mem_cons_self ..))

/-- What the last write to an address left there. -/
theorem overlays_last (m : Nat → β) (ws vs : List (Nat × List β)) {base i : Nat} {xs : List β}
    (hi : i < xs.length) (h : ∀ v ∈ vs, ¬ (v.1 ≤ base + i ∧ base + i < v.1 + v.2.length)) :
    overlays m (ws ++ (base, xs) :: vs) (base + i) = xs[i] := by
  rw [overlays_append, overlays_cons, overlays_outside _ h]
  exact overlay_inside _ base xs hi

/-- A store seen from an address on. -/
theorem overlay_shift (m : Nat → β) (p base : Nat) (xs : List β) (i : Nat) :
    overlay m (p + base) xs (p + i) = overlay (fun i => m (p + i)) base xs i := by
  by_cases hi : base ≤ i
  · have hsub : p + i - (p + base) = i - base := by omega
    simp [overlay, hi, hsub]
  · simp [overlay, hi]

theorem overlays_shift (m : Nat → β) (p : Nat) (ws : List (Nat × List β)) (i : Nat) :
    overlays m (ws.map fun w => (p + w.1, w.2)) (p + i) = overlays (fun i => m (p + i)) ws i := by
  induction ws generalizing m with
  | nil => rfl
  | cons w ws ih =>
    have hfirst : (fun i => overlay m (p + w.1) w.2 (p + i)) = overlay (fun i => m (p + i)) w.1 w.2 := by
      funext i
      exact overlay_shift m p w.1 w.2 i
    rw [List.map_cons, overlays_cons, ih, hfirst, overlays_cons]

/-- An address reads what lies over it there, whatever lies elsewhere. -/
theorem overlays_congr {m m' : Nat → β} {a : Nat} (h : m a = m' a) (ws : List (Nat × List β)) :
    overlays m ws a = overlays m' ws a := by
  induction ws generalizing m m' with
  | nil => exact h
  | cons w ws ih =>
    refine ih ?_
    simp only [overlay, h]

/-- `xs` laid over `l` from `i` on, as far as it fits. -/
def lay (l : List β) (i : Nat) (xs : List β) : List β :=
  l.take i ++ xs.take (l.length - i) ++ l.drop (i + xs.length)

@[simp] theorem lay_nil (l : List β) (i : Nat) : lay l i [] = l := by simp [lay]

theorem lay_full (l : List β) {i : Nat} (xs : List β) (h : l.length ≤ i) : lay l i xs = l := by
  simp [lay, List.take_of_length_le h, List.drop_eq_nil_of_le (show l.length ≤ i + xs.length by omega),
    Nat.sub_eq_zero_of_le h]

/-- The first element is stored, and the rest is laid behind it. -/
theorem lay_cons (l : List β) {i : Nat} (x : β) (xs : List β) (h : i < l.length) :
    lay (l.set i x) (i + 1) xs = lay l i (x :: xs) := by
  have htake : (l.set i x).take (i + 1) = l.take i ++ [x] := by
    rw [List.take_add_one, List.take_set_of_le (Nat.le_refl i), List.getElem?_set_self h]
    rfl
  have hdrop : (l.set i x).drop (i + 1 + xs.length) = l.drop (i + (xs.length + 1)) := by
    rw [List.drop_set_of_lt (by omega)]
    congr 1
    omega
  have hcount : l.length - i = l.length - (i + 1) + 1 := by omega
  rw [lay, lay, htake, hdrop, List.length_set, List.length_cons, hcount, List.take_succ_cons]
  simp

/-- What a list reads as with another laid over it. -/
theorem lay_getElem? (l xs : List β) {i : Nat} (hi : i ≤ l.length) (k : Nat) :
    (lay l i xs)[k]? =
      if k ∈ List.range' i (min xs.length (l.length - i)) then xs[k - i]? else l[k]? := by
  have hmem : k ∈ List.range' i (min xs.length (l.length - i)) ↔
      i ≤ k ∧ k < i + min xs.length (l.length - i) := List.mem_range'_1
  have hfront : min i l.length = i := by omega
  simp only [lay, List.getElem?_append, List.length_append, List.length_take, List.getElem?_take,
    List.getElem?_drop, hmem, hfront]
  split_ifs with h₁ h₂ h₃ h₄ h₅
  all_goals first | rfl | omega | skip
  by_cases hlen : xs.length ≤ l.length - i
  · rw [show i + xs.length + (k - (i + min (l.length - i) xs.length)) = k by omega]
  · rw [List.getElem?_eq_none (by omega), List.getElem?_eq_none (by omega)]

theorem lay_all (l xs : List β) (h : xs.length = l.length) : lay l 0 xs = xs := by
  simp [lay, ← h]

/-- Values stored one after the other, each at its index. -/
def sets (l : List β) (ss : List (Nat × β)) : List β := ss.foldl (fun l s => l.set s.1 s.2) l

/-- What was stored last at an index. -/
def lastAt (ss : List (Nat × β)) (i : Nat) : Option β :=
  (ss.reverse.find? fun s => s.1 == i).map Prod.snd

theorem lastAt_snoc (ss : List (Nat × β)) (s : Nat × β) (i : Nat) :
    lastAt (ss ++ [s]) i = if s.1 = i then some s.2 else lastAt ss i := by
  rw [lastAt, List.reverse_append, List.reverse_singleton, List.singleton_append, List.find?_cons]
  by_cases h : s.1 = i
  · rw [beq_iff_eq.mpr h, if_pos h]
    rfl
  · rw [beq_false_of_ne h, if_neg h]
    rfl

theorem sets_append (l : List β) (ss ss' : List (Nat × β)) :
    sets l (ss ++ ss') = sets (sets l ss) ss' := List.foldl_append ..

theorem sets_length (ss : List (Nat × β)) : ∀ l : List β, (sets l ss).length = l.length := by
  induction ss with
  | nil =>
    intro l
    rfl
  | cons s ss ih =>
    intro l
    exact (ih _).trans List.length_set

/-- An element is what was stored last, or what was there before. -/
theorem sets_getElem? (l : List β) (ss : List (Nat × β)) {i : Nat} (hi : i < l.length) :
    (sets l ss)[i]? = (lastAt ss i).or l[i]? := by
  induction ss using List.reverseRecOn with
  | nil => rfl
  | append_singleton ss s ih =>
    have hlast : sets l (ss ++ [s]) = (sets l ss).set s.1 s.2 := sets_append l ss [s]
    rw [hlast, lastAt_snoc, List.getElem?_set, sets_length]
    split_ifs with h hlt
    · rfl
    · exact absurd (h ▸ hi) hlt
    · exact ih

end Overlay
