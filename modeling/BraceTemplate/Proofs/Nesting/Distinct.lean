import Mathlib.Data.List.Nodup
import Mathlib.Data.Option.Basic
import BraceTemplate.Proofs.Nesting.Tracking

/-!
# Entries tell blocks apart

No two tags of a source stand at one place, so the entries that a pairing pushes
are different from each other, and so are the entries of the `tag` blocks of a
tree.
-/

namespace BraceTemplate

theorem exists_symbol_of_mem_headings {symbols : List Symbol} {tag : Heading}
    (h : tag ∈ headings symbols) : ∃ s ∈ symbols, tag.markup.start = s.location.start := by
  induction symbols with
  | nil => cases h
  | cons s rest ih =>
    rw [headings] at h
    split at h
    · rcases List.mem_cons.1 h with rfl | h
      · exact ⟨s, List.mem_cons_self, rfl⟩
      · obtain ⟨t, ht, hstart⟩ := ih h
        exact ⟨t, List.mem_cons_of_mem s ht, hstart⟩
    · obtain ⟨t, ht, hstart⟩ := ih h
      exact ⟨t, List.mem_cons_of_mem s ht, hstart⟩

/-- Tags start one behind the other. -/
theorem headings_pairwise {symbols : List Symbol} {first last : Nat}
    (h : Stretch.Follow first (symbols.map Symbol.stretch) last) :
    (headings symbols).Pairwise fun a b => a.markup.start < b.markup.start := by
  induction symbols generalizing first with
  | nil => exact .nil
  | cons s rest ih =>
    have hrest := h.2.2
    rw [headings]
    split
    · refine .cons ?_ (ih hrest)
      intro later hlater
      obtain ⟨t, ht, hstart⟩ := exists_symbol_of_mem_headings hlater
      have hbehind : s.location.stop ≤ t.location.start := (hrest.bounds (List.mem_map_of_mem ht)).1
      have hone : Stretch.Follow first [s.stretch] s.location.stop := ⟨h.1, h.2.1, rfl⟩
      have hless := hone.lt (List.cons_ne_nil _ _)
      have hfirst := hone.stop_getLastD.1
      change s.location.start = first at hfirst
      change s.location.start < later.markup.start
      omega
    · exact ih hrest

/-- The entry that a tag pushes if it opens a block. -/
def Heading.entry (tag : Heading) : Entry := ⟨tag.name, tag.markup⟩

namespace Pairing

/-- What is pushed is pushed in the order of the tags. -/
theorem heads_foldl_sublist (options : Options) (m : Pairing) (tags : List Heading) :
    ((tags.foldl (step options) m).opened.map List.head?).Sublist
      (m.opened.map List.head? ++ tags.map (some ∘ Heading.entry)) := by
  induction tags generalizing m with
  | nil => rw [List.foldl_nil, List.map_nil, List.append_nil]
  | cons tag tags ih =>
    have hstep : ((m.step options tag).opened.map List.head?).Sublist
        (m.opened.map List.head? ++ [some tag.entry]) := by
      have hkeep := List.sublist_append_left (m.opened.map List.head?) [some tag.entry]
      rw [step]
      split
      · split
        · exact hkeep
        · rw [push, List.map_append]
          exact List.Sublist.refl _
      · rw [pop]
        split <;> exact hkeep
      · exact hkeep
      · exact hkeep
    rw [List.foldl_cons, List.map_cons, List.append_cons]
    exact (ih _).trans (hstep.append_right _)

end Pairing

/-- The entries that are pushed for the tags of a source differ. -/
theorem nodup_heads (source : String) (options : Options) :
    ((pairing source options).opened.map List.head?).Nodup := by
  have hsublist := Pairing.heads_foldl_sublist options .empty (headings (symbols source))
  have hnodup : ((headings (symbols source)).map (some ∘ Heading.entry)).Nodup := by
    rw [List.Nodup, List.pairwise_map]
    refine (headings_pairwise (symbols_follow source)).imp ?_
    intro a b hlt heq
    have hentry : a.entry = b.entry := Option.some.inj heq
    have hstart : a.markup.start = b.markup.start :=
      congrArg (Location.start ∘ Entry.markup) hentry
    omega
  exact hnodup.sublist hsublist

/-- Trails start with the entries of the `tag` blocks. -/
theorem Node.heads_tagTrails (around : List (Option Entry)) (nodes : List Node) :
    (tagTrails around nodes).map List.head? =
      ((blocksOf nodes).filter (·.kind = .tag)).map fun b => some b.opening? := by
  fun_induction tagTrails around nodes with
  | case1 => rw [blocksOf_nil]; rfl
  | case2 around s nodes ih => rw [ih, blocksOf_span]
  | case3 around kind name inner nodes hinner hother hnodes =>
    rw [List.map_append, hnodes, blocksOf_block, List.filter_cons]
    by_cases hkind : kind = .tag
    · rw [if_pos hkind, List.map_cons, hinner, if_pos (by simpa using hkind)]
      simp
    · simp [hkind, hother]

/-- Blocks of a tree that stand for what was pushed are told apart by their
entries. -/
theorem eq_of_opening?_eq {source : String} {options : Options} {nodes : List Node} {b c : Block}
    (htrails : Node.tagTrails [] nodes = (pairing source options).opened.map (·.map some))
    (hb : b ∈ Node.blocksOf nodes) (hbkind : b.kind = .tag) (hc : c ∈ Node.blocksOf nodes)
    (hckind : c.kind = .tag) (heq : b.opening? = c.opening?) : b = c := by
  have hheads := Node.heads_tagTrails [] nodes
  have hmap : ((pairing source options).opened.map (·.map some)).map List.head? =
      ((pairing source options).opened.map List.head?).map (Option.map some) := by
    rw [List.map_map, List.map_map]
    exact List.map_congr_left fun es _ => List.head?_map
  have hnodup := (nodup_heads source options).map
    (Option.map_injective (Option.some_injective Entry))
  rw [← hmap, ← htrails, hheads] at hnodup
  refine List.inj_on_of_nodup_map hnodup ?_ ?_ (congrArg some heq)
  · exact List.mem_filter.2 ⟨hb, by simp [hbkind]⟩
  · exact List.mem_filter.2 ⟨hc, by simp [hckind]⟩

end BraceTemplate
