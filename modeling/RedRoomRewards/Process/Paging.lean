import RedRoomRewards.Process.Solo
import Mathlib.Data.List.Basic

/-! Reading a list page by page: the reader goes on at the number of items it has got so
far until a page says that there are no more. -/
namespace RedRoomRewards.Process

structure Page (α : Type) where
  items : List α
  total : ℕ
  hasMore : Bool

/-- The page of at most `size` items of a list from `offset` on. -/
def pageOf {α : Type} (xs : List α) (size offset : ℕ) : Page α where
  items := (xs.drop offset).take size
  total := xs.length
  hasMore := offset + ((xs.drop offset).take size).length < xs.length

def Page.map {α β : Type} (f : α → β) (page : Page α) : Page β where
  items := page.items.map f
  total := page.total
  hasMore := page.hasMore

/-- The pages of a list of images are the images of its pages. -/
theorem pageOf_map {α β : Type} (f : α → β) (xs : List α) (size offset : ℕ) :
    pageOf (xs.map f) size offset = (pageOf xs size offset).map f := by
  simp only [pageOf, Page.map, List.map_drop, List.map_take, List.length_map, List.length_drop, List.length_take]

namespace Prog
variable {I : Interface} {D O ε α : Type}

/-- Fetch pages from `offset` on; `none` if more than `fuel` are needed. -/
def follow (fetch : ℕ → Prog I ε (Page α)) : ℕ → ℕ → Prog I ε (Option (List (Page α)))
  | 0, _ => pure none
  | fuel + 1, offset => do
    let page ← fetch offset
    if page.hasMore then do
      let rest ← follow fetch fuel (offset + page.items.length)
      pure (rest.map (page :: ·))
    else pure (some [page])

/-- The pages hold the items from `offset` on, in order, and each knows how many there are. -/
def Covers (xs : List α) (offset : ℕ) (pages : List (Page α)) : Prop :=
  pages.flatMap Page.items = xs.drop offset ∧ ∀ page ∈ pages, page.total = xs.length

variable {exec : O → D → (c : I.Cmd) → I.Reply c × D} {fair : O → Prop} {d : D}
variable {fetch : ℕ → Prog I ε (Page α)} {xs : List α} {size : ℕ}

theorem covers_last {offset : ℕ} (hlast : (pageOf xs size offset).hasMore = false) :
    Covers xs offset [pageOf xs size offset] := by
  have hall : xs.length ≤ offset + ((xs.drop offset).take size).length := Nat.not_lt.mp (of_decide_eq_false hlast)
  rw [List.length_take, List.length_drop] at hall
  refine ⟨?_, fun page hpage => by rw [List.mem_singleton.mp hpage]; rfl⟩
  rw [List.flatMap_singleton]
  exact List.take_of_length_le (by rw [List.length_drop]; omega)

theorem covers_cons {offset : ℕ} {pages : List (Page α)}
    (hpages : Covers xs (offset + (pageOf xs size offset).items.length) pages) :
    Covers xs offset (pageOf xs size offset :: pages) := by
  constructor
  · rw [List.flatMap_cons, hpages.1, ← List.drop_drop]
    have hlength : (pageOf xs size offset).items.length = min size (xs.drop offset).length := List.length_take
    rw [hlength, pageOf]
    rcases Nat.le_total size (xs.drop offset).length with hle | hle
    · rw [Nat.min_eq_left hle, List.take_append_drop]
    · rw [Nat.min_eq_right hle, List.take_of_length_le hle, List.drop_length, List.append_nil]
  · intro page hpage
    rcases List.mem_cons.mp hpage with rfl | hrest
    · rfl
    · exact hpages.2 page hrest

/-- A page that is not the last brings the reader nearer to the end. -/
theorem more_advances {offset : ℕ} (hsize : 0 < size) (hmore : (pageOf xs size offset).hasMore = true) :
    xs.length - (offset + (pageOf xs size offset).items.length) < xs.length - offset := by
  have hbelow : offset + ((xs.drop offset).take size).length < xs.length := of_decide_eq_true hmore
  have hitems : ((xs.drop offset).take size).length = min size (xs.length - offset) := by
    rw [List.length_take, List.length_drop]
  show xs.length - (offset + ((xs.drop offset).take size).length) < xs.length - offset
  omega

/-- Where each fetch gives its page of one list, following the pages gives the list. -/
theorem yields_follow (hsize : 0 < size)
    (hfetch : ∀ offset, Yields exec fair (fun r d' => r = .ok (pageOf xs size offset) ∧ d' = d) (fetch offset) d)
    {fuel offset : ℕ} (hfuel : xs.length - offset < fuel) :
    Yields exec fair (fun r d' => (∃ pages, r = .ok (some pages) ∧ Covers xs offset pages) ∧ d' = d)
      (follow fetch fuel offset) d := by
  induction fuel generalizing offset with
  | zero => exact absurd hfuel (Nat.not_lt_zero _)
  | succ fuel ih =>
    refine (yields_bind _ _).mpr ((hfetch offset).imp ?_)
    rintro r d' ⟨rfl, rfl⟩
    show Yields exec fair _ (if (pageOf xs size offset).hasMore then _ else _) d'
    split
    · rename_i hmore
      refine (yields_bind _ _).mpr ((ih (Nat.lt_of_lt_of_le (more_advances hsize hmore) (Nat.le_of_lt_succ hfuel))).imp ?_)
      rintro r d' ⟨⟨pages, rfl, hpages⟩, rfl⟩
      exact ⟨⟨_, rfl, covers_cons hpages⟩, rfl⟩
    · rename_i hlast
      exact ⟨⟨_, rfl, covers_last (by simpa using hlast)⟩, rfl⟩

end Prog
end RedRoomRewards.Process
