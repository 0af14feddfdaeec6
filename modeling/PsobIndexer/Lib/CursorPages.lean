import Mathlib
/-!
# Pages after a cursor

A reader that asks for what follows the last item it saw meets every item once,
also when items are put in front of the list between two requests: the cursor is
the key of an item, not a position.
-/

namespace Lib

variable {α β κ : Type}

section Pages
variable [DecidableEq κ] (key : α → κ)

/-- What follows the first item under a key. -/
def following (k : κ) (l : List α) : List α := (l.dropWhile fun a => key a ≠ k).tail

/-- At most `limit` items: the first ones, or the ones that follow a key. -/
def pageAfter (limit : Nat) (l : List α) : Option κ → List α
  | none => l.take limit
  | some k => (following key k l).take limit

variable {key}

theorem following_append {front : List α} (a : α) (rest : List α) (h : ∀ b ∈ front, key b ≠ key a) :
    following key (key a) (front ++ a :: rest) = rest := by
  unfold following
  rw [List.dropWhile_append_of_pos (by simpa using h), List.dropWhile_cons_of_neg (by simp), List.tail_cons]

/-- New items in front do not move the page after a cursor. -/
theorem pageAfter_append {front seen rest : List α} {limit : Nat} (hnodup : ((seen ++ rest).map key).Nodup)
    (hnew : ∀ a ∈ front, key a ∉ (seen ++ rest).map key) (hfirst : seen = [] → front = []) :
    pageAfter key limit (front ++ (seen ++ rest)) (seen.getLast?.map key) = rest.take limit := by
  rcases List.eq_nil_or_concat' seen with rfl | ⟨init, a, rfl⟩
  · simp [hfirst rfl, pageAfter]
  · have hbefore : ∀ b ∈ front ++ init, key b ≠ key a := by
      intro b hb
      rcases List.mem_append.1 hb with hb | hb
      · intro heq
        apply hnew b hb
        simp [heq]
      · rw [List.append_assoc, List.map_append, List.nodup_append] at hnodup
        exact hnodup.2.2 _ (List.mem_map_of_mem hb) _ (by simp)
    have hsplit : front ++ (init ++ [a] ++ rest) = (front ++ init) ++ a :: rest := by simp
    rw [List.getLast?_concat, Option.map_some, pageAfter, hsplit, following_append a rest hbefore]

end Pages

/-! ## A scan -/

section Scan
variable {m : Type → Type} [Monad m]

/-- Reads up to `n` pages from request `i` on, each after the last item of the page
before it, and visits their items; an empty page ends it. -/
def scanPages (key : α → κ) (read : Nat → Option κ → m (List α)) (visit : β → α → m β) :
    Nat → Nat → Option κ → β → m β
  | 0, _, _, acc => pure acc
  | n + 1, i, cursor, acc => do
    let page ← read i cursor
    if page.isEmpty then
      return acc
    let acc ← page.foldlM visit acc
    scanPages key read visit n (i + 1) (page.getLast?.map key) acc

variable [LawfulMonad m] [DecidableEq κ] {key : α → κ} {read : Nat → Option κ → m (List α)} {visit : β → α → m β}
  {limit : Nat} {fresh : Nat → List α}

/-- From any point of the list on, a scan visits the items that follow. -/
theorem scanPages_from (hlimit : 0 < limit) (n : Nat) : ∀ (i : Nat) (seen rest : List α) (acc : β),
    ((seen ++ rest).map key).Nodup → (∀ j, ∀ a ∈ fresh j, key a ∉ (seen ++ rest).map key) →
    (seen = [] → fresh i = []) →
    (∀ j cursor, read j cursor = pure (pageAfter key limit (fresh j ++ (seen ++ rest)) cursor)) →
    scanPages key read visit n i (seen.getLast?.map key) acc = (rest.take (n * limit)).foldlM visit acc := by
  induction n with
  | zero =>
    intro i seen rest acc _ _ _ _
    simp [scanPages]
  | succ n ih =>
    intro i seen rest acc hnodup hnew hfirst hread
    have hpage : read i (seen.getLast?.map key) = pure (rest.take limit) := by
      rw [hread, pageAfter_append hnodup (hnew i) hfirst]
    rw [scanPages, hpage, pure_bind]
    rcases rest with _ | ⟨a, rest⟩
    · simp
    have hne : (a :: rest).take limit ≠ [] := by
      rw [ne_eq, List.take_eq_nil_iff, not_or]
      exact ⟨Nat.ne_of_gt hlimit, List.cons_ne_nil _ _⟩
    rw [if_neg (by simpa using hne), Nat.succ_mul, Nat.add_comm (n * limit), List.take_add, List.foldlM_append]
    congr 1
    funext acc'
    -- the page joins what was seen, and its last item is the cursor
    have hsplit : seen ++ (a :: rest) = (seen ++ (a :: rest).take limit) ++ (a :: rest).drop limit := by
      rw [List.append_assoc, List.take_append_drop]
    have hlast : ((a :: rest).take limit).getLast? = (seen ++ (a :: rest).take limit).getLast? := by
      rw [List.getLast?_append, List.getLast?_eq_some_getLast hne, Option.some_or]
    rw [hlast]
    rw [hsplit] at hnodup hnew hread
    exact ih (i + 1) _ _ acc' hnodup hnew (fun h => absurd (List.append_eq_nil_iff.1 h).2 hne) hread

/-- A scan visits the first `n * limit` items of the list its first request met. -/
theorem scanPages_eq {l : List α} (hlimit : 0 < limit) (hnodup : (l.map key).Nodup)
    (hnew : ∀ j, ∀ a ∈ fresh j, key a ∉ l.map key) (hfirst : fresh 0 = [])
    (hread : ∀ j cursor, read j cursor = pure (pageAfter key limit (fresh j ++ l) cursor)) (n : Nat) (acc : β) :
    scanPages key read visit n 0 none acc = (l.take (n * limit)).foldlM visit acc :=
  scanPages_from hlimit n 0 [] l acc hnodup hnew (fun _ => hfirst) hread

end Scan

end Lib
