import Mathlib.Algebra.GroupWithZero.Nat
import MiniMarl.Containers.List
import MiniMarl.Transition

namespace MiniMarl.ContainersList

open Data Transition

variable {α : Type} {entries after : List (ListEntry α)} {pointer : Nat}

/-- The pointers of all entries. -/
def links (entries : List (ListEntry α)) : Links where
  next pointer := entries[pointer]?.bind ListEntry.next
  prev pointer := entries[pointer]?.bind ListEntry.prev

/-- The element slot of an entry. -/
def slot (entries : List (ListEntry α)) (pointer : Nat) : Option (Slot α) := entries[pointer]?.map ListEntry.data

/-- Only the pointers have changed. -/
structure Relinks (entries : List (ListEntry α)) (changed : Links) (after : List (ListEntry α)) : Prop where
  length : after.length = entries.length
  relinked : links after = changed
  slots : slot after = slot entries

theorem Relinks.refl (entries : List (ListEntry α)) : Relinks entries (links entries) entries := ⟨rfl, rfl, rfl⟩

theorem Relinks.trans {middle : List (ListEntry α)} {first second : Links} (left : Relinks entries first middle)
    (right : Relinks middle second after) : Relinks entries second after :=
  ⟨right.length.trans left.length, right.relinked, right.slots.trans left.slots⟩

theorem entry_eq (known : pointer < entries.length) :
    ∃ found, entry entries pointer = .ok found ∧ found.next = (links entries).next pointer ∧
      found.prev = (links entries).prev pointer ∧ slot entries pointer = some found.data := by
  have present := List.getElem?_eq_getElem known
  exact ⟨entries[pointer], by simp [entry, present], by simp [links, present], by simp [links, present],
    by simp [slot, present]⟩

theorem bind_modify {β : Type} (entries : List (ListEntry α)) (pointer : Nat) (read : ListEntry α → Option β)
    {change : ListEntry α → ListEntry α} (keeps : ∀ entry, read (change entry) = read entry) :
    (fun other : Nat => (entries.modify pointer change)[other]?.bind read) = fun other => entries[other]?.bind read := by
  funext other
  rw [List.getElem?_modify]
  cases entries[other]? with
  | none => rfl
  | some found =>
      by_cases here : pointer = other
      · simp [here, keeps]
      · simp [here]

theorem slot_modify (entries : List (ListEntry α)) (pointer : Nat) {change : ListEntry α → ListEntry α}
    (keeps : ∀ entry, (change entry).data = entry.data) : slot (entries.modify pointer change) = slot entries := by
  have same := bind_modify entries pointer (some ∘ ListEntry.data) fun entry => congrArg some (keeps entry)
  funext other
  simpa only [slot, Option.map_eq_bind] using congrFun same other

theorem write_next (known : pointer < entries.length) (target : Option Nat) :
    ∃ after, write entries pointer (fun entry => { entry with next := target }) = .ok after ∧
      Relinks entries ((links entries).setNext pointer target) after := by
  refine ⟨_, if_pos known, by simp, ?_, slot_modify _ _ fun _ => rfl⟩
  simp only [links, Links.setNext, Links.mk.injEq]
  constructor
  · funext other
    by_cases here : other = pointer
    · subst here
      simp [known]
    · simp [here, Ne.symm here]
  · exact bind_modify _ _ _ fun _ => rfl

theorem write_prev (known : pointer < entries.length) (target : Option Nat) :
    ∃ after, write entries pointer (fun entry => { entry with prev := target }) = .ok after ∧
      Relinks entries ((links entries).setPrev pointer target) after := by
  refine ⟨_, if_pos known, by simp, ?_, slot_modify _ _ fun _ => rfl⟩
  simp only [links, Links.setPrev, Links.mk.injEq]
  constructor
  · exact bind_modify _ _ _ fun _ => rfl
  · funext other
    by_cases here : other = pointer
    · subst here
      simp [known]
    · simp [here, Ne.symm here]

theorem write_data (known : pointer < entries.length) (data : Slot α) :
    ∃ after, write entries pointer (fun entry => { entry with data := data }) = .ok after ∧
      after.length = entries.length ∧ links after = links entries ∧
      slot after = Function.update (slot entries) pointer (some data) := by
  refine ⟨_, if_pos known, by simp, ?_, ?_⟩
  · simp only [links, Links.mk.injEq]
    constructor
    · exact bind_modify _ _ _ fun _ => rfl
    · exact bind_modify _ _ _ fun _ => rfl
  · funext other
    by_cases here : other = pointer
    · subst here
      simp [slot, known]
    · simp [slot, here, Ne.symm here]

theorem writeIf_next {optional : Option Nat} (known : ∀ pointer, optional = some pointer → pointer < entries.length)
    (target : Option Nat) :
    ∃ after, writeIf entries optional (fun entry => { entry with next := target }) = .ok after ∧
      Relinks entries ((links entries).setNextOf optional target) after := by
  cases optional with
  | none => exact ⟨entries, rfl, .refl entries⟩
  | some pointer => exact write_next (known pointer rfl) target

theorem writeIf_prev {optional : Option Nat} (known : ∀ pointer, optional = some pointer → pointer < entries.length)
    (target : Option Nat) :
    ∃ after, writeIf entries optional (fun entry => { entry with prev := target }) = .ok after ∧
      Relinks entries ((links entries).setPrevOf optional target) after := by
  cases optional with
  | none => exact ⟨entries, rfl, .refl entries⟩
  | some pointer => exact write_prev (known pointer rfl) target

theorem unlink_spec {front rest : List Nat} (chain : (links entries).Chain (front ++ pointer :: rest))
    (nodup : (front ++ pointer :: rest).Nodup) (inside : ∀ node ∈ front ++ pointer :: rest, node < entries.length) :
    ∃ after, unlink pointer (front ++ pointer :: rest).head? entries = .ok ((front ++ rest).head?, after) ∧
      Relinks entries ((links entries).bypass pointer) after := by
  obtain ⟨_, prev, next, _⟩ := Links.segment_append.mp chain
  rw [Option.or_none] at prev next
  have known : pointer < entries.length := inside pointer (by simp)
  have prevInside : ∀ node, front.getLast? = some node → node < entries.length :=
    fun node last => inside node (List.mem_append_left _ (List.mem_of_getLast? last))
  have nextInside : ∀ node, rest.head? = some node → node < entries.length :=
    fun node head => inside node (List.mem_append_right _ (List.mem_cons_of_mem _ (List.mem_of_head? head)))
  have alone : pointer ∉ front ++ rest := (List.nodup_cons.mp (List.nodup_middle.mp nodup)).1
  have notFront : front.getLast? ≠ some pointer :=
    fun last => alone (List.mem_append_left _ (List.mem_of_getLast? last))
  obtain ⟨found, read, foundNext, foundPrev, _⟩ := entry_eq known
  obtain ⟨first, firstWritten, firstRelinks⟩ := writeIf_next prevInside rest.head?
  have firstKnown : pointer < first.length := firstRelinks.length ▸ known
  obtain ⟨again, reread, againNext, againPrev, _⟩ := entry_eq firstKnown
  rw [firstRelinks.relinked, Links.setNextOf_next notFront, next] at againNext
  rw [firstRelinks.relinked, Links.setNextOf_prev, prev] at againPrev
  obtain ⟨second, secondWritten, secondRelinks⟩ := writeIf_prev
    (fun node head => firstRelinks.length ▸ nextInside node head) front.getLast?
  have secondKnown : pointer < second.length := secondRelinks.length ▸ firstKnown
  obtain ⟨third, thirdWritten, thirdRelinks⟩ := write_prev secondKnown none
  have thirdKnown : pointer < third.length := thirdRelinks.length ▸ secondKnown
  obtain ⟨after, written, lastRelinks⟩ := write_next thirdKnown none
  have heads : (if (front ++ pointer :: rest).head? = some pointer then rest.head? else (front ++ pointer :: rest).head?) =
      (front ++ rest).head? := by
    cases front with
    | nil => simp
    | cons node front =>
        have distinct : node ≠ pointer := fun same => alone (by simp [same])
        simp [distinct]
  refine ⟨after, ?_, ((firstRelinks.trans secondRelinks).trans thirdRelinks).trans ?_⟩
  · rw [unlink, read, Except.ok_bind, foundNext, foundPrev, next, prev, firstWritten, Except.ok_bind, reread,
      Except.ok_bind, againNext, againPrev, secondWritten, Except.ok_bind, thirdWritten, Except.ok_bind, written,
      Except.ok_bind, heads]
    rfl
  · rw [thirdRelinks.relinked, secondRelinks.relinked, firstRelinks.relinked] at lastRelinks
    rw [Links.bypass, prev, next, Links.setNextOf_prev, Links.setNextOf_next notFront, prev, next]
    exact lastRelinks

theorem link_spec {nodes : List Nat} (inside : ∀ node ∈ pointer :: nodes, node < entries.length)
    (next : (links entries).next pointer = none) (prev : (links entries).prev pointer = none) :
    ∃ after, link pointer nodes.head? entries = .ok (some pointer, after) ∧
      Relinks entries ((links entries).push pointer nodes.head?) after := by
  have known : pointer < entries.length := inside pointer List.mem_cons_self
  obtain ⟨found, read, foundNext, foundPrev, _⟩ := entry_eq known
  rw [next] at foundNext
  rw [prev] at foundPrev
  cases nodes with
  | nil =>
      refine ⟨entries, ?_, ?_⟩
      · simp [link, read, foundNext, foundPrev]
        rfl
      · rw [List.head?_nil, Links.push_eq next prev]
        exact .refl entries
  | cons first nodes =>
      obtain ⟨middle, firstWritten, firstRelinks⟩ := write_next known (some first)
      have firstKnown : first < middle.length :=
        firstRelinks.length ▸ inside first (List.mem_cons_of_mem _ List.mem_cons_self)
      obtain ⟨after, written, lastRelinks⟩ := write_prev firstKnown (some pointer)
      have samePrev : (links entries).setPrev pointer none = links entries := by
        rw [Links.setPrev, Function.update_eq_self_iff.mpr prev.symm]
      refine ⟨after, ?_, ?_⟩
      · simp [link, read, foundNext, foundPrev, firstWritten, written]
      · rw [firstRelinks.relinked] at lastRelinks
        rw [Links.push, samePrev]
        exact firstRelinks.trans lastRelinks

theorem addFree_spec {nodes : List Nat} (inside : ∀ node ∈ pointer :: nodes, node < entries.length) :
    ∃ after, addFree pointer nodes.head? entries = .ok (some pointer, after) ∧
      Relinks entries ((links entries).push pointer nodes.head?) after := by
  have known : pointer < entries.length := inside pointer List.mem_cons_self
  obtain ⟨first, firstWritten, firstRelinks⟩ := write_prev known none
  have firstKnown : pointer < first.length := firstRelinks.length ▸ known
  obtain ⟨second, secondWritten, secondRelinks⟩ := write_next firstKnown nodes.head?
  have same : second.length = entries.length := secondRelinks.length.trans firstRelinks.length
  obtain ⟨after, written, lastRelinks⟩ := writeIf_prev
    (fun node head => same ▸ inside node (List.mem_cons_of_mem _ (List.mem_of_head? head))) (some pointer)
  refine ⟨after, ?_, (firstRelinks.trans secondRelinks).trans ?_⟩
  · rw [addFree, firstWritten, Except.ok_bind, secondWritten, Except.ok_bind, written]
    rfl
  · rw [secondRelinks.relinked, firstRelinks.relinked] at lastRelinks
    exact lastRelinks

theorem transfer_spec {front rest target : List Nat} (source : (links entries).Chain (front ++ pointer :: rest))
    (chain : (links entries).Chain target) (nodup : (front ++ pointer :: rest ++ target).Nodup)
    (inside : ∀ node ∈ front ++ pointer :: rest ++ target, node < entries.length) :
    ∃ middle after, unlink pointer (front ++ pointer :: rest).head? entries = .ok ((front ++ rest).head?, middle) ∧
      link pointer target.head? middle = .ok (some pointer, after) ∧ after.length = entries.length ∧
      slot after = slot entries ∧ (links after).Chain (front ++ rest) ∧ (links after).Chain (pointer :: target) := by
  obtain ⟨sourceNodup, _, _⟩ := List.nodup_append.mp nodup
  obtain ⟨_, ⟨next, prev⟩, _⟩ := source.bypass sourceNodup
  obtain ⟨middle, unlinked, relinks⟩ := unlink_spec source sourceNodup
    fun node member => inside node (List.mem_append_left _ member)
  have inMiddle : ∀ node ∈ pointer :: target, node < middle.length := by
    intro node member
    rw [relinks.length]
    refine inside node ?_
    rcases List.mem_cons.mp member with same | other
    · simp [same]
    · exact List.mem_append_right _ other
  obtain ⟨after, linked, relinksAfter⟩ := link_spec inMiddle (relinks.relinked ▸ next) (relinks.relinked ▸ prev)
  rw [relinks.relinked] at relinksAfter
  obtain ⟨shorter, longer⟩ := Links.Chain.transfer source chain nodup
  have whole := relinks.trans relinksAfter
  exact ⟨middle, after, unlinked, linked, whole.length, whole.slots, whole.relinked ▸ shorter, whole.relinked ▸ longer⟩

theorem entry_of_slot {data : Slot α} (found : slot entries pointer = some data) :
    pointer < entries.length ∧ ∃ entry, ContainersList.entry entries pointer = .ok entry ∧
      entry.next = (links entries).next pointer ∧ entry.data = data := by
  obtain ⟨present, there, _⟩ := Option.map_eq_some_iff.mp found
  have known : pointer < entries.length := (List.getElem?_eq_some_iff.mp there).1
  obtain ⟨entry, read, next, _, holds⟩ := entry_eq known
  rw [found, Option.some.injEq] at holds
  exact ⟨known, entry, read, next, holds.symm⟩

theorem construct_spec (free : slot entries pointer = some .raw) (value : α) :
    ∃ after, construct pointer value entries = .ok after ∧ after.length = entries.length ∧ links after = links entries ∧
      slot after = Function.update (slot entries) pointer (some (.live value)) := by
  obtain ⟨known, found, read, _, data⟩ := entry_of_slot free
  obtain ⟨after, written, rest⟩ := write_data known (.live value)
  refine ⟨after, ?_, rest⟩
  rw [construct, read, Except.ok_bind, data]
  exact written

theorem destroy_spec {value : α} (live : slot entries pointer = some (.live value)) :
    ∃ after, destroy pointer entries = .ok after ∧ after.length = entries.length ∧ links after = links entries ∧
      slot after = Function.update (slot entries) pointer (some .raw) := by
  obtain ⟨known, found, read, _, data⟩ := entry_of_slot live
  obtain ⟨after, written, rest⟩ := write_data known .raw
  refine ⟨after, ?_, rest⟩
  rw [destroy, read, Except.ok_bind, data]
  exact written

/-- The block allocated before the one with this number. -/
def below : Nat → Option Nat
  | 0 => none
  | index + 1 => some index

/-- The list holds `live`, each element with its iterator, and has the entries
`idle` to spare. -/
structure Inv (list : ContainersList α) (live : List (Nat × α)) (idle : List Nat) : Prop where
  head : list.head = (live.map Prod.fst).head?
  free : list.free = idle.head?
  headChain : (links list.entries).Chain (live.map Prod.fst)
  freeChain : (links list.entries).Chain idle
  all : (live.map Prod.fst ++ idle).Perm (List.range list.entries.length)
  size : list.size = live.length
  capacity : list.capacity = list.entries.length
  elements : ∀ pair ∈ live, slot list.entries pair.1 = some (.live pair.2)
  spare : ∀ pointer ∈ idle, slot list.entries pointer = some .raw
  counts : (list.blocks.map ListBlock.count).sum = list.entries.length
  newest : list.allocations = below list.blocks.length
  chained : ∀ index block, list.blocks[index]? = some block → block.next = below index ∧ block.releases = 0

variable {list : ContainersList α} {live : List (Nat × α)} {idle : List Nat}

theorem Inv.nodup (inv : Inv list live idle) : (live.map Prod.fst ++ idle).Nodup := inv.all.nodup_iff.mpr List.nodup_range

theorem Inv.inside (inv : Inv list live idle) : ∀ pointer ∈ live.map Prod.fst ++ idle, pointer < list.entries.length :=
  fun _ member => List.mem_range.mp (inv.all.mem_iff.mp member)

theorem Inv.empty : Inv ({} : ContainersList α) [] [] where
  head := rfl
  free := rfl
  headChain := trivial
  freeChain := trivial
  all := .refl _
  size := rfl
  capacity := rfl
  elements := fun _ member => by cases member
  spare := fun _ member => by cases member
  counts := rfl
  newest := rfl
  chained := fun _ _ found => by cases found

theorem addFree_loop {first times : Nat} {busy idle : List Nat} (i : Nat) (busyChain : (links entries).Chain busy)
    (idleChain : (links entries).Chain idle) (nodup : (busy ++ idle).Nodup)
    (older : ∀ node ∈ busy ++ idle, node < first + i) (room : first + i + times ≤ entries.length) :
    ∃ after, Except.loop (fun i (state : Option Nat × List (ListEntry α)) => addFree (first + i) state.1 state.2)
        times i (idle.head?, entries) = .ok (((List.range' (first + i) times).reverse ++ idle).head?, after) ∧
      after.length = entries.length ∧ slot after = slot entries ∧ (links after).Chain busy ∧
      (links after).Chain ((List.range' (first + i) times).reverse ++ idle) := by
  induction times generalizing i idle entries with
  | zero => exact ⟨entries, rfl, rfl, rfl, busyChain, idleChain⟩
  | succ times ih =>
      obtain ⟨_, idleNodup, apart⟩ := List.nodup_append.mp nodup
      have fresh : ∀ node ∈ busy ++ idle, node ≠ first + i := fun node member => Nat.ne_of_lt (older node member)
      have freshIdle : first + i ∉ idle := fun member => fresh _ (List.mem_append_right _ member) rfl
      obtain ⟨middle, added, relinks⟩ := addFree_spec (show ∀ node ∈ (first + i) :: idle, node < entries.length by
        intro node member
        rcases List.mem_cons.mp member with same | idle
        · omega
        · have := older node (List.mem_append_right _ idle)
          omega)
      have chain : (links middle).Chain ((first + i) :: idle) := relinks.relinked ▸ idleChain.push idleNodup freshIdle
      have others : (links middle).Chain busy := by
        rw [relinks.relinked]
        refine busyChain.congr ?_
        intro node member
        refine Links.push_of_notMem (mt List.mem_cons.mp (not_or.mpr ⟨fresh node (List.mem_append_left _ member), ?_⟩))
        exact fun also => apart node member node also rfl
      have distinct : (busy ++ (first + i) :: idle).Nodup :=
        List.nodup_middle.mpr (List.nodup_cons.mpr ⟨fun member => fresh _ member rfl, nodup⟩)
      have newer : ∀ node ∈ busy ++ (first + i) :: idle, node < first + (i + 1) := by
        intro node member
        rcases List.mem_append.mp member with busy | idle
        · have := older node (List.mem_append_left _ busy)
          omega
        · rcases List.mem_cons.mp idle with same | idle
          · omega
          · have := older node (List.mem_append_right _ idle)
            omega
      obtain ⟨after, looped, length, slots, busyAfter, idleAfter⟩ :=
        ih (i + 1) others chain distinct newer (by rw [relinks.length]; omega)
      have order : (List.range' (first + i) (times + 1)).reverse ++ idle =
          (List.range' (first + (i + 1)) times).reverse ++ (first + i) :: idle := by
        rw [List.range'_succ, List.reverse_cons, List.append_assoc, List.singleton_append, Nat.add_assoc]
      rw [order]
      refine ⟨after, ?_, length.trans relinks.length, slots.trans relinks.slots, busyAfter, idleAfter⟩
      rw [Except.loop_succ times added]
      exact looped

theorem append_entries (entries more : List (ListEntry α)) (known : pointer < entries.length) :
    (links (entries ++ more)).next pointer = (links entries).next pointer ∧
      (links (entries ++ more)).prev pointer = (links entries).prev pointer ∧
      slot (entries ++ more) pointer = slot entries pointer := by
  simp only [links, slot, List.getElem?_append_left known, and_self]

theorem grow_spec (inv : Inv list live idle) (count : Nat) :
    ∃ after, list.grow count = .ok after ∧ Inv after live ((List.range' list.entries.length count).reverse ++ idle) := by
  let more : List (ListEntry α) := List.replicate count {}
  have same : ∀ pointer ∈ live.map Prod.fst ++ idle,
      (links (list.entries ++ more)).next pointer = (links list.entries).next pointer ∧
        (links (list.entries ++ more)).prev pointer = (links list.entries).prev pointer ∧
        slot (list.entries ++ more) pointer = slot list.entries pointer :=
    fun pointer member => append_entries list.entries more (inv.inside pointer member)
  have headChain : (links (list.entries ++ more)).Chain (live.map Prod.fst) := inv.headChain.congr fun pointer member =>
    ⟨(same pointer (List.mem_append_left _ member)).1, (same pointer (List.mem_append_left _ member)).2.1⟩
  have freeChain : (links (list.entries ++ more)).Chain idle := inv.freeChain.congr fun pointer member =>
    ⟨(same pointer (List.mem_append_right _ member)).1, (same pointer (List.mem_append_right _ member)).2.1⟩
  have length : (list.entries ++ more).length = list.entries.length + count := by simp [more]
  obtain ⟨entries, looped, sameLength, slots, busyAfter, idleAfter⟩ :=
    addFree_loop 0 headChain freeChain inv.nodup inv.inside (Nat.le_of_eq length.symm)
  have total : entries.length = list.entries.length + count := sameLength.trans length
  refine ⟨{ list with
    free := ((List.range' list.entries.length count).reverse ++ idle).head?
    entries := entries
    blocks := list.blocks ++ [{ count := count, next := list.allocations }]
    allocations := some list.blocks.length
    capacity := list.capacity + count }, ?_, ?_⟩
  · rw [grow, inv.free, looped]
    rfl
  · refine ⟨inv.head, rfl, busyAfter, idleAfter, ?_, inv.size, ?_, ?_, ?_, ?_, ?_, ?_⟩
    · rw [total, List.range_eq_range', ← List.range'_append_1, ← List.range_eq_range', Nat.zero_add]
      have reversed : ((List.range' list.entries.length count).reverse ++ idle).Perm
          (idle ++ List.range' list.entries.length count) :=
        (List.perm_append_comm).trans ((List.reverse_perm _).append_left idle)
      refine (reversed.append_left _).trans ?_
      rw [← List.append_assoc]
      exact inv.all.append_right _
    · rw [inv.capacity, total]
    · intro pair member
      rw [slots, (same pair.1 (List.mem_append_left _ (List.mem_map_of_mem member))).2.2]
      exact inv.elements pair member
    · intro pointer member
      rw [slots]
      rcases List.mem_append.mp member with new | old
      · obtain ⟨lower, upper⟩ := List.mem_range'_1.mp (List.mem_reverse.mp new)
        have found : more[pointer - list.entries.length]? = some {} := List.getElem?_replicate_of_lt (by omega)
        rw [slot, List.getElem?_append_right lower, found]
        rfl
      · rw [(same pointer (List.mem_append_right _ old)).2.2]
        exact inv.spare pointer old
    · rw [List.map_append, List.sum_append, inv.counts, total]
      simp
    · simp [below]
    · intro index block found
      rcases Nat.lt_or_ge index list.blocks.length with old | new
      · rw [List.getElem?_append_left old] at found
        exact inv.chained index block found
      · rw [List.getElem?_append_right new] at found
        have last : index = list.blocks.length := by
          have bound := (List.getElem?_eq_some_iff.mp found).1
          simp at bound
          omega
        subst last
        simp at found
        subst found
        exact ⟨inv.newest, rfl⟩

theorem take_spec {pointer : Nat} {idle : List Nat} (inv : Inv list live (pointer :: idle)) (value : α) :
    ∃ middle linked after, unlink pointer list.free list.entries = .ok (idle.head?, middle) ∧
      link pointer list.head middle = .ok (some pointer, linked) ∧ construct pointer value linked = .ok after ∧
      Inv { list with free := idle.head?, head := some pointer, entries := after, size := list.size + 1 }
        ((pointer, value) :: live) idle := by
  have nodup : (pointer :: idle ++ live.map Prod.fst).Nodup := List.nodup_append_comm.mp inv.nodup
  obtain ⟨middle, linked, unlinked, relinked, length, slots, freeChain, headChain⟩ :=
    transfer_spec (show (links list.entries).Chain ([] ++ pointer :: idle) from inv.freeChain) inv.headChain nodup
      fun node member => inv.inside node (List.perm_append_comm.mem_iff.mp member)
  have fresh : slot linked pointer = some .raw := by
    rw [slots]
    exact inv.spare pointer List.mem_cons_self
  obtain ⟨after, constructed, sameLength, sameLinks, sameSlots⟩ := construct_spec fresh value
  rw [slots] at sameSlots
  have total : after.length = list.entries.length := sameLength.trans length
  have moved : ((pointer, value) :: live).map Prod.fst ++ idle = pointer :: (live.map Prod.fst ++ idle) := rfl
  obtain ⟨alone, _⟩ := List.nodup_cons.mp (List.nodup_middle.mp inv.nodup)
  refine ⟨middle, linked, after, inv.free ▸ unlinked, inv.head ▸ relinked, constructed,
    rfl, rfl, sameLinks ▸ headChain, sameLinks ▸ freeChain, ?_, ?_, ?_, ?_, ?_, ?_, inv.newest, inv.chained⟩
  · rw [moved, total]
    exact List.perm_middle.symm.trans inv.all
  · rw [inv.size]
    rfl
  · rw [total]
    exact inv.capacity
  · intro pair member
    rw [sameSlots]
    rcases List.mem_cons.mp member with same | old
    · rw [same, Function.update_self]
    · have distinct : pair.1 ≠ pointer := fun same =>
        alone (List.mem_append_left _ (same ▸ List.mem_map_of_mem old))
      rw [Function.update_of_ne distinct]
      exact inv.elements pair old
  · intro other member
    have distinct : other ≠ pointer := fun same => alone (List.mem_append_right _ (same ▸ member))
    rw [sameSlots, Function.update_of_ne distinct]
    exact inv.spare other (List.mem_cons_of_mem _ member)
  · rw [total]
    exact inv.counts

theorem growIfFull_spec (inv : Inv list live idle) :
    ∃ grown pointer rest, list.growIfFull = .ok grown ∧ Inv grown live (pointer :: rest) := by
  cases idle with
  | nil =>
      obtain ⟨grown, done, holds⟩ := grow_spec inv (max list.capacity 8)
      obtain ⟨count, positive⟩ : ∃ count, max list.capacity 8 = count + 1 :=
        Nat.exists_eq_succ_of_ne_zero (by omega)
      have order : (List.range' list.entries.length (count + 1)).reverse ++ [] =
          (list.entries.length + count) :: (List.range' list.entries.length count).reverse := by
        simp [List.range'_concat]
      rw [positive, order] at holds
      exact ⟨grown, _, _, by rw [growIfFull, inv.free, List.head?_nil, if_pos rfl, done], holds⟩
  | cons pointer rest => exact ⟨list, pointer, rest, by simp [growIfFull, inv.free], inv⟩

theorem emplaceFront_spec (inv : Inv list live idle) (value : α) :
    ∃ pointer after idle, list.emplaceFront value = .ok (pointer, after) ∧ Inv after ((pointer, value) :: live) idle := by
  obtain ⟨grown, pointer, rest, enough, holds⟩ := growIfFull_spec inv
  obtain ⟨middle, linked, entries, unlinked, relinked, constructed, after⟩ := take_spec holds value
  refine ⟨pointer, _, rest, ?_, after⟩
  have first : grown.free = some pointer := holds.free
  rw [first] at unlinked
  rw [emplaceFront, enough, Except.ok_bind]
  simp only [first, unlinked, relinked, constructed, Except.ok_bind]
  rfl

theorem erase_spec {front rest : List (Nat × α)} {value : α} (inv : Inv list (front ++ (pointer, value) :: rest) idle) :
    ∃ after, list.erase pointer = .ok after ∧ Inv after (front ++ rest) (pointer :: idle) := by
  have names : (front ++ (pointer, value) :: rest).map Prod.fst = front.map Prod.fst ++ pointer :: rest.map Prod.fst :=
    List.map_append
  have nodup := names ▸ inv.nodup
  obtain ⟨middle, linked, unlinked, relinked, length, slots, headChain, freeChain⟩ :=
    transfer_spec (names ▸ inv.headChain) inv.freeChain nodup (names ▸ inv.inside)
  have present : slot linked pointer = some (.live value) := by
    rw [slots]
    exact inv.elements (pointer, value) (by simp)
  obtain ⟨after, destroyed, sameLength, sameLinks, sameSlots⟩ := destroy_spec present
  rw [slots] at sameSlots
  have total : after.length = list.entries.length := sameLength.trans length
  have shifted : (front.map Prod.fst ++ pointer :: rest.map Prod.fst ++ idle).Perm
      (pointer :: ((front ++ rest).map Prod.fst ++ idle)) := by
    rw [List.map_append]
    exact List.perm_middle.append_right idle
  obtain ⟨alone, _⟩ := List.nodup_cons.mp (shifted.nodup_iff.mp nodup)
  refine ⟨{ list with
    free := some pointer
    head := (front.map Prod.fst ++ rest.map Prod.fst).head?
    entries := after
    size := list.size - 1 }, ?_, ?_⟩
  · rw [erase, inv.head, inv.free, names, unlinked, Except.ok_bind]
    simp only [relinked, destroyed, Except.ok_bind]
    rfl
  · refine ⟨by rw [List.map_append], rfl, ?_, sameLinks ▸ freeChain, ?_, ?_, ?_, ?_, ?_, ?_, inv.newest, inv.chained⟩
    · rw [List.map_append, sameLinks]
      exact headChain
    · rw [total]
      refine (List.perm_middle.trans shifted.symm).trans ?_
      rw [← names]
      exact inv.all
    · rw [inv.size]
      simp
    · rw [total]
      exact inv.capacity
    · intro pair member
      have distinct : pair.1 ≠ pointer := fun same =>
        alone (List.mem_append_left _ (same ▸ List.mem_map_of_mem member))
      rw [sameSlots, Function.update_of_ne distinct]
      refine inv.elements pair ?_
      simp only [List.mem_append, List.mem_cons] at member ⊢
      exact member.imp_right .inr
    · intro other member
      rw [sameSlots]
      rcases List.mem_cons.mp member with same | old
      · rw [same, Function.update_self]
      · have distinct : other ≠ pointer := fun same => alone (List.mem_append_right _ (same ▸ old))
        rw [Function.update_of_ne distinct]
        exact inv.spare other old
    · rw [total]
      exact inv.counts

/-- Following `next` from the first entry passes all of them in their order. -/
theorem toList_spec {before : Option Nat} (segment : (links entries).Segment before (live.map Prod.fst) none)
    (elements : ∀ pair ∈ live, slot entries pair.1 = some (.live pair.2)) {fuel : Nat} (enough : live.length < fuel) :
    toList entries fuel (live.map Prod.fst).head? = .ok live := by
  induction live generalizing before fuel with
  | nil =>
      obtain ⟨fuel, rfl⟩ := Nat.exists_eq_succ_of_ne_zero (Nat.ne_of_gt enough)
      rfl
  | cons pair live ih =>
      obtain ⟨fuel, rfl⟩ := Nat.exists_eq_succ_of_ne_zero (Nat.ne_zero_of_lt enough)
      obtain ⟨_, next, rest⟩ := segment
      obtain ⟨_, found, read, foundNext, data⟩ := entry_of_slot (elements pair List.mem_cons_self)
      have tail := ih rest (fun other member => elements other (List.mem_cons_of_mem _ member)) (Nat.lt_of_succ_lt_succ enough)
      rw [next, Option.or_none] at foundNext
      simp only [List.map_cons, List.head?_cons, toList, read, Except.ok_bind, data, foundNext]
      rw [tail]
      rfl

/-- The first loop of `~list` destroys every element once. -/
theorem destroyAll_spec {before : Option Nat} (segment : (links entries).Segment before (live.map Prod.fst) none)
    (nodup : (live.map Prod.fst).Nodup) (elements : ∀ pair ∈ live, slot entries pair.1 = some (.live pair.2)) {fuel : Nat}
    (enough : live.length < fuel) :
    ∃ after, destroyAll fuel (live.map Prod.fst).head? entries = .ok after ∧ after.length = entries.length ∧
      (∀ pointer ∈ live.map Prod.fst, slot after pointer = some .raw) ∧
      ∀ pointer, pointer ∉ live.map Prod.fst → slot after pointer = slot entries pointer := by
  induction live generalizing before fuel entries with
  | nil =>
      obtain ⟨fuel, rfl⟩ := Nat.exists_eq_succ_of_ne_zero (Nat.ne_of_gt enough)
      exact ⟨entries, rfl, rfl, by simp, fun _ _ => rfl⟩
  | cons pair live ih =>
      obtain ⟨fuel, rfl⟩ := Nat.exists_eq_succ_of_ne_zero (Nat.ne_zero_of_lt enough)
      obtain ⟨_, next, rest⟩ := segment
      obtain ⟨alone, distinct⟩ := List.nodup_cons.mp nodup
      obtain ⟨middle, destroyed, length, sameLinks, slots⟩ := destroy_spec (elements pair List.mem_cons_self)
      have kept : ∀ pointer, pointer ≠ pair.1 → slot middle pointer = slot entries pointer := by
        intro pointer other
        rw [slots, Function.update_of_ne other]
      have gone : slot middle pair.1 = some .raw := by rw [slots, Function.update_self]
      obtain ⟨_, found, read, foundNext, _⟩ := entry_of_slot gone
      rw [sameLinks, next, Option.or_none] at foundNext
      have others : ∀ other ∈ live, slot middle other.1 = some (.live other.2) := by
        intro other member
        rw [kept other.1 fun same => alone (same ▸ List.mem_map_of_mem member)]
        exact elements other (List.mem_cons_of_mem _ member)
      obtain ⟨after, looped, sameLength, raw, outside⟩ :=
        ih (sameLinks ▸ rest) distinct others (Nat.lt_of_succ_lt_succ enough)
      refine ⟨after, ?_, sameLength.trans length, ?_, ?_⟩
      · simp only [List.map_cons, List.head?_cons, destroyAll, destroyed, Except.ok_bind, read, foundNext]
        exact looped
      · intro pointer member
        rcases List.mem_cons.mp member with same | later
        · rw [same, outside pair.1 alone]
          exact gone
        · exact raw pointer later
      · intro pointer absent
        obtain ⟨other, later⟩ := not_or.mp (mt List.mem_cons.mpr absent)
        rw [outside pointer later, kept pointer other]

/-- The second loop of `~list` frees every block once. -/
theorem freeAll_spec {blocks : List ListBlock} {count : Nat} (known : count ≤ blocks.length)
    (chained : ∀ index block, index < count → blocks[index]? = some block → block.next = below index ∧ block.releases = 0)
    {fuel : Nat} (enough : count < fuel) :
    ∃ after, freeAll fuel (below count) blocks = .ok after ∧ after.length = blocks.length ∧
      (∀ index block, index < count → after[index]? = some block → block.releases = 1) ∧
      ∀ index, count ≤ index → after[index]? = blocks[index]? := by
  induction count generalizing fuel blocks with
  | zero =>
      obtain ⟨fuel, rfl⟩ := Nat.exists_eq_succ_of_ne_zero (Nat.ne_of_gt enough)
      exact ⟨blocks, rfl, rfl, fun _ _ inside => absurd inside (Nat.not_lt_zero _), fun _ _ => rfl⟩
  | succ count ih =>
      obtain ⟨fuel, rfl⟩ := Nat.exists_eq_succ_of_ne_zero (Nat.ne_zero_of_lt enough)
      have present : blocks[count]? = some blocks[count] := List.getElem?_eq_getElem known
      obtain ⟨next, unreleased⟩ := chained count _ (Nat.lt_succ_self count) present
      let middle := blocks.modify count fun other => { other with releases := other.releases + 1 }
      have others : ∀ index, count ≠ index → middle[index]? = blocks[index]? := by
        intro index other
        simp [middle, other]
      have here : middle[count]? = some { blocks[count] with releases := blocks[count].releases + 1 } := by
        simp [middle, present]
      have sameLength : middle.length = blocks.length := List.length_modify ..
      have older : ∀ index block, index < count → middle[index]? = some block →
          block.next = below index ∧ block.releases = 0 := by
        intro index block inside found
        rw [others index (Nat.ne_of_gt inside)] at found
        exact chained index block (Nat.lt_succ_of_lt inside) found
      obtain ⟨after, looped, length, released, outside⟩ :=
        ih (sameLength ▸ Nat.le_of_succ_le known) older (Nat.lt_of_succ_lt_succ enough)
      refine ⟨after, ?_, length.trans sameLength, ?_, ?_⟩
      · simp only [below, freeAll, present, unreleased, if_true, next]
        exact looped
      · intro index block inside found
        rcases Nat.lt_succ_iff_lt_or_eq.mp inside with lower | same
        · exact released index block lower found
        · subst same
          rw [outside index (Nat.le_refl index), here] at found
          cases found
          exact congrArg (· + 1) unreleased
      · intro index beyond
        rw [outside index (Nat.le_of_succ_le beyond), others index (Nat.ne_of_lt beyond)]

theorem finish_spec (inv : Inv list live idle) {fuel : Nat} (elements : list.size < fuel)
    (blocks : list.blocks.length < fuel) :
    ∃ ended, list.finish fuel = .ok ended ∧ ended.entries.length = list.entries.length ∧
      (∀ pointer < ended.entries.length, slot ended.entries pointer = some .raw) ∧
      ended.blocks.length = list.blocks.length ∧ ∀ block ∈ ended.blocks, block.releases = 1 := by
  obtain ⟨distinct, _, _⟩ := List.nodup_append.mp inv.nodup
  obtain ⟨entries, destroyed, length, gone, kept⟩ :=
    destroyAll_spec inv.headChain distinct inv.elements (inv.size ▸ elements)
  obtain ⟨freed, looped, sameLength, released, _⟩ :=
    freeAll_spec (Nat.le_refl list.blocks.length) (fun index block _ => inv.chained index block) blocks
  refine ⟨{ list with entries := entries, blocks := freed }, ?_, length, ?_, sameLength, ?_⟩
  · rw [finish, inv.head, destroyed, Except.ok_bind, inv.newest, looped]
    rfl
  · intro pointer inside
    by_cases living : pointer ∈ live.map Prod.fst
    · exact gone pointer living
    · have member : pointer ∈ live.map Prod.fst ++ idle := inv.all.mem_iff.mpr (List.mem_range.mpr (length ▸ inside))
      rw [kept pointer living]
      exact inv.spare pointer ((List.mem_append.mp member).resolve_left living)
  · intro block member
    obtain ⟨index, found⟩ := List.mem_iff_getElem?.mp member
    have inside := (List.getElem?_eq_some_iff.mp found).1
    exact released index block (sameLength ▸ inside) found

theorem Inv.deref (inv : Inv list live idle) {pair : Nat × α} (member : pair ∈ live) : list.deref pair.1 = .ok pair.2 := by
  obtain ⟨_, found, read, _, data⟩ := entry_of_slot (inv.elements pair member)
  rw [ContainersList.deref, read, Except.ok_bind, data]

theorem filter_live {front rest : List (Nat × α)} {value : α}
    (nodup : ((front ++ (pointer, value) :: rest).map Prod.fst).Nodup) :
    (front ++ (pointer, value) :: rest).filter (fun pair => pair.1 ≠ pointer) = front ++ rest := by
  rw [List.map_append, List.map_cons, List.nodup_middle] at nodup
  obtain ⟨alone, _⟩ := List.nodup_cons.mp nodup
  rw [← List.map_append] at alone
  have others : (front ++ rest).filter (fun pair => pair.1 ≠ pointer) = front ++ rest := by
    refine List.filter_eq_self.mpr ?_
    intro pair member
    exact decide_eq_true fun same => alone (List.mem_map.mpr ⟨pair, member, same⟩)
  rw [List.filter_append, List.filter_cons_of_neg (by simp), ← List.filter_append]
  exact others

inductive Label (α : Type) where
  | emplaceFront (value : α)
  | erase (it : Nat)
deriving Repr

/-- A list in use. `live` records the iterators that `emplace_front` returned
and that have not been erased since, the newest first, with their elements. -/
structure Session (α : Type) where
  list : ContainersList α := {}
  live : List (Nat × α) := []

namespace Session

def step (session : Session α) : Label α → Except Fault (Session α)
  | .emplaceFront value => do
      let (it, list) ← session.list.emplaceFront value
      return ⟨list, (it, value) :: session.live⟩
  | .erase it => do
      let list ← session.list.erase it
      return ⟨list, session.live.filter fun pair => pair.1 ≠ it⟩

def system : System (Session α) (Label α) := .ofStep (· = {}) fun session label => (session.step label).toOption

/-- Only live iterators are erased. -/
def careful (session : Session α) : Label α → Prop
  | .emplaceFront _ => True
  | .erase it => it ∈ session.live.map Prod.fst

variable {session : Session α}

/-- No assertion fails, and every iterator but the erased one stays. -/
theorem step_spec {idle : List Nat} (inv : Inv session.list session.live idle) {label : Label α}
    (permitted : session.careful label) :
    ∃ after idle, session.step label = .ok after ∧ Inv after.list after.live idle ∧
      ∀ pair ∈ session.live, label ≠ .erase pair.1 → pair ∈ after.live := by
  cases label with
  | emplaceFront value =>
      obtain ⟨it, list, idle, emplaced, holds⟩ := emplaceFront_spec inv value
      refine ⟨⟨list, (it, value) :: session.live⟩, idle, ?_, holds, fun pair member _ => List.mem_cons_of_mem _ member⟩
      rw [step, emplaced]
      rfl
  | erase it =>
      obtain ⟨⟨same, value⟩, member, rfl⟩ := List.mem_map.mp permitted
      obtain ⟨front, rest, split⟩ := List.append_of_mem member
      rw [split] at inv
      obtain ⟨list, erased, holds⟩ := erase_spec inv
      rw [← filter_live (List.nodup_append.mp inv.nodup).1, ← split] at holds
      refine ⟨⟨list, _⟩, _, ?_, holds, ?_⟩
      · rw [step, erased]
        rfl
      · intro pair living other
        exact List.mem_filter.mpr ⟨living, decide_eq_true fun same => other (congrArg Label.erase same.symm)⟩

theorem inv_of_reachable (reachable : ((system : System (Session α) (Label α)).restrict careful).Reachable session) :
    ∃ idle, Inv session.list session.live idle := by
  induction reachable with
  | initial start =>
      cases start
      exact ⟨[], Inv.empty⟩
  | step _ move ih =>
      obtain ⟨permitted, moved⟩ := move
      obtain ⟨idle, inv⟩ := ih
      obtain ⟨next, later, stepped, holds, _⟩ := step_spec inv permitted
      cases stepped.symm.trans (Except.toOption_eq_some.mp moved)
      exact ⟨later, holds⟩

/-- In every run that erases live iterators only, the entries form two chains,
the list is the sequence of its live elements, the next operation succeeds and
keeps all other iterators, and the destructor gives everything back once. -/
theorem refines_sequence
    (reachable : ((system : System (Session α) (Label α)).restrict careful).Reachable session) :
    (∃ idle, session.list.head = (session.live.map Prod.fst).head? ∧ session.list.free = idle.head? ∧
      (links session.list.entries).Chain (session.live.map Prod.fst) ∧ (links session.list.entries).Chain idle ∧
      (session.live.map Prod.fst ++ idle).Perm (List.range session.list.entries.length) ∧
      (session.list.blocks.map ListBlock.count).sum = session.list.entries.length ∧
      (session.live.map Prod.fst).length = session.list.size ∧
      (session.live.map Prod.fst).length + idle.length = session.list.capacity) ∧
    (∀ fuel, session.list.size < fuel → toList session.list.entries fuel session.list.head = .ok session.live) ∧
    (∀ pair ∈ session.live, session.list.deref pair.1 = .ok pair.2) ∧
    (∀ label, session.careful label → ∃ after, session.step label = .ok after ∧
      ∀ pair ∈ session.live, label ≠ .erase pair.1 → pair ∈ after.live ∧ after.list.deref pair.1 = .ok pair.2) ∧
    ∀ fuel, session.list.size < fuel → session.list.blocks.length < fuel → ∃ ended, session.list.finish fuel = .ok ended ∧
      ended.entries.length = session.list.entries.length ∧
      (∀ pointer < ended.entries.length, slot ended.entries pointer = some .raw) ∧
      ended.blocks.length = session.list.blocks.length ∧ ∀ block ∈ ended.blocks, block.releases = 1 := by
  obtain ⟨idle, inv⟩ := inv_of_reachable reachable
  have lengths : (session.live.map Prod.fst).length + idle.length = session.list.capacity := by
    rw [← List.length_append, inv.all.length_eq, List.length_range, inv.capacity]
  refine ⟨⟨idle, inv.head, inv.free, inv.headChain, inv.freeChain, inv.all, inv.counts, ?_, lengths⟩, ?_,
    fun pair member => inv.deref member, ?_, fun fuel elements blocks => finish_spec inv elements blocks⟩
  · rw [List.length_map, inv.size]
  · intro fuel enough
    rw [inv.head]
    exact toList_spec inv.headChain inv.elements (inv.size ▸ enough)
  · intro label permitted
    obtain ⟨after, later, stepped, holds, kept⟩ := step_spec inv permitted
    exact ⟨after, stepped, fun pair living other => ⟨kept pair living other, holds.deref (kept pair living other)⟩⟩

/-- An entry leaves the middle of the list, and the list grows a second time. -/
theorem refines_sequence_regrown : ∃ session : Session Nat, session.list.blocks.length = 2 ∧
    toList session.list.entries 11 session.list.head =
      .ok [(15, 10), (6, 9), (0, 8), (1, 7), (2, 6), (3, 5), (4, 4), (5, 3), (7, 1)] := by
  obtain ⟨session, reachable, seen⟩ := System.reachable_of_guarded_replay (· = ({} : Session Nat))
    (fun session label => (session.step label).toOption)
    (fun session label => match label with
      | .emplaceFront _ => true
      | .erase it => decide (it ∈ session.live.map Prod.fst)) rfl
    ([1, 2, 3, 4, 5, 6, 7, 8].map .emplaceFront ++ [.erase 6, .emplaceFront 9, .emplaceFront 10])
    (fun session => decide (session.list.blocks.length = 2 ∧ session.list.size = 9 ∧ session.live =
      [(15, 10), (6, 9), (0, 8), (1, 7), (2, 6), (3, 5), (4, 4), (5, 3), (7, 1)])) (by decide +kernel)
  have plain : ((system : System (Session Nat) (Label Nat)).restrict careful).Reachable session := by
    refine reachable.weaken ?_
    intro session label allowed
    cases label with
    | emplaceFront value => trivial
    | erase it =>
        have member : it ∈ session.live.map Prod.fst := of_decide_eq_true allowed
        exact member
  obtain ⟨blocks, size, live⟩ := of_decide_eq_true seen
  obtain ⟨_, traversal, _⟩ := refines_sequence plain
  exact ⟨session, blocks, live ▸ traversal 11 (by omega)⟩

end Session

end MiniMarl.ContainersList
