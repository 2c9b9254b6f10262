import Lox.Proofs.PieceSlices
import Lox.Proofs.Reporting

/-!
# Scanning can be resumed anywhere

The items of a source are those in front of the end of input, at most one for each character, and
the end of input itself. A call takes the first of the items that are left, and the end of input is
never used up (`Scanner.take_of_items`).

Call by call a byte scanner gives the same items as the scanner over characters, and stands behind
the same text (`ByteScanner.Step.gives_next`). So whatever number of calls has gone before, it has
cut its pieces out of the source between characters, and from where it stands it can be asked for
more items or scan the rest.
-/

namespace Lox

namespace Scanner

variable {s : Scanner} {items : List Item} {last : Item}

theorem exists_items_eq (s : Scanner) :
    ∃ items last, s.items = items ++ [last] ∧ (∀ item ∈ items, Item.isEnd item = false) ∧
      Item.isEnd last = true ∧ items.length ≤ s.rest.length := by
  induction s using Scanner.items.induct with
  | case1 s hstep =>
      exact ⟨[], .ok s.finish, items_of_step_eq_none hstep, by simp, rfl, Nat.zero_le _⟩
  | case2 s item? after hstep ih =>
      obtain ⟨items, last, hitems, hmore, hlast, hle⟩ := ih
      have hlt := rest_length_lt_of_step hstep
      refine ⟨item?.toList ++ items, last, ?_, ?_, hlast, ?_⟩
      · rw [items_of_step hstep, hitems, List.append_assoc]
      · intro item hitem
        rcases List.mem_append.1 hitem with hitem | hitem
        · obtain rfl := Option.mem_toList.1 hitem
          exact isEnd_of_step hstep
        · exact hmore item hitem
      · have hone : item?.toList.length ≤ 1 := by cases item? <;> simp
        rw [List.length_append]
        omega

theorem next_of_items (h : s.items = items ++ [last]) :
    s.next.1 = items.headD last ∧ s.next.2.items = items.tail ++ [last] := by
  rcases s.items_eq_next with ⟨hrest, hnext, hone⟩ | hmore
  · rw [h] at hone
    cases items with
    | nil =>
        obtain rfl := List.singleton_inj.1 hone
        refine ⟨rfl, ?_⟩
        rw [items_of_step_eq_none (step_eq_none_iff.2 hrest), ← hnext]
        rfl
    | cons item items => simp at hone
  · cases items with
    | nil =>
        obtain ⟨items', last', hitems, -⟩ := exists_items_eq s.next.2
        simp [hmore, hitems] at h
    | cons item items => exact List.cons.inj (hmore.symm.trans h)

theorem take_of_items (h : s.items = items ++ [last]) (count : Nat) :
    (s.take count).1 = items.take count ++ List.replicate (count - items.length) last ∧
      (s.take count).2.items = items.drop count ++ [last] := by
  induction count generalizing s items with
  | zero => simp [take, h]
  | succ count ih =>
      obtain ⟨hnext, hleft⟩ := next_of_items h
      obtain ⟨htaken, hdropped⟩ := ih hleft
      have htake : s.take (count + 1) =
          (s.next.1 :: (s.next.2.take count).1, (s.next.2.take count).2) := rfl
      rw [htake, hnext, htaken, hdropped]
      cases items with
      | nil => simp [List.replicate_succ]
      | cons item items => simp

end Scanner

namespace ByteScanner

namespace Step

variable {source : String} {front text : List Char}

theorem gives_nextPiece_end {line : Nat} (h : source.toList = front ++ (text ++ [])) :
    Gives source nextPiece (behind source front text line)
      (.inr (.ok (.endOfInput line source.utf8ByteSize)))
      (behind source (front ++ text) [] line) := by
  have hend : source.toList = front ++ text ++ ([] ++ []) := by simpa using h
  exact gives_begin.bind ((gives_advance_nil hend).bind (gives_scanner.bind (gives_pure rfl)))

variable {s after : Scanner}

theorem line_add_count_lt (hsize : source.utf8ByteSize < UInt32.size - 1)
    (h : s.StandsBehind source front) : s.line + s.rest.count '\n' < UInt32.size := by
  have hall : source.toList = source.toList ++ [] := (List.append_nil _).symm
  have hcount := lineOf_of_split hall
  have hle := lineOf_le source (byteCount source.toList)
  rw [hcount, h.text, List.count_append, ← Nat.add_assoc, ← h.line] at hle
  omega

theorem gives_nextPiece (hsize : source.utf8ByteSize < UInt32.size - 1)
    (h : s.StandsBehind source (front ++ text)) {item? : Option Item}
    (hstep : s.step = some (item?, after)) :
    ∃ text', Gives source nextPiece (behind source front text s.line)
        (item?.elim (.inl ()) .inr) (behind source (front ++ text) text' after.line) ∧
      after.StandsBehind source (front ++ text ++ text') := by
  obtain ⟨tile, hbegins, hsplit, rfl, hafter⟩ := h.step hstep
  refine ⟨tile.text, ?_, hafter⟩
  have hline := line_add_count_lt hsize h
  have hrest : s.rest = tile.text ++ after.rest :=
    List.append_cancel_left (h.text.symm.trans hsplit)
  have hafterLine : after.line = s.line + tile.text.count '\n' := by
    rw [hafter.line, h.line, List.count_append, Nat.add_assoc]
  rw [hafterLine, ← h.line]
  rw [hrest] at hline
  -- the piece at the front is the one tile with which the rest begins
  obtain ⟨c, more, htext⟩ := List.exists_cons_of_ne_nil hbegins.text_ne_nil
  generalize hcs : more ++ after.rest = cs
  have hcons : tile.text ++ after.rest = c :: cs := by rw [htext, List.cons_append, hcs]
  rw [hcons] at hbegins hsplit hline
  obtain rfl := hbegins.unique (Piece.begins_first c cs)
  refine gives_begin.bind ((gives_advance hsplit).bind ?_)
  refine (reads_piece c cs hsplit hline).bind ?_
  cases Tile.item? _ (byteCount (front ++ text)) s.line <;> exact gives_pure rfl

/-- A call of a byte scanner gives what the scanner gives that stands where it stands, and leaves it
where that one stands afterwards. The end of input leaves it where it gives the same again. -/
theorem gives_next (hsize : source.utf8ByteSize < UInt32.size - 1)
    (h : s.StandsBehind source (front ++ text)) :
    ∃ front' text', Gives source next (behind source front text s.line) s.next.1
        (behind source front' text' s.next.2.line) ∧
      s.next.2.StandsBehind source (front' ++ text') ∧
      (Item.isEnd s.next.1 = true → Gives source next (behind source front' text' s.next.2.line)
        s.next.1 (behind source front' text' s.next.2.line)) := by
  fun_induction Scanner.next s generalizing front text with
  | case1 s hstep =>
      have hrest := Scanner.step_eq_none_iff.1 hstep
      have hend : source.toList = front ++ (text ++ []) := by
        rw [h.text, hrest, List.append_assoc]
      have hend' : source.toList = front ++ text ++ ([] ++ []) := h.text.trans (by rw [hrest]; rfl)
      have hoffset : s.offset = source.utf8ByteSize := by
        rw [h.offset, ← byteCount_toList, h.text, hrest, List.append_nil]
      have hagain : Gives source nextPiece (behind source (front ++ text) [] s.line) _ _ :=
        gives_nextPiece_end hend'
      rw [List.append_nil, ← hoffset] at hagain
      refine ⟨front ++ text, [], ?_, by rwa [List.append_nil], fun _ => hagain.loop_end⟩
      rw [Scanner.finish, hoffset]
      exact (gives_nextPiece_end hend).loop_end
  | case2 s item after hstep =>
      obtain ⟨text', hgives, hafter⟩ := gives_nextPiece hsize h hstep
      refine ⟨front ++ text, text', hgives.loop_end, hafter, ?_⟩
      rw [Scanner.isEnd_of_step hstep]
      intro hend
      cases hend
  | case3 s after hstep ih =>
      obtain ⟨text', hgives, hafter⟩ := gives_nextPiece hsize h hstep
      obtain ⟨front', text'', hmore, hfinal⟩ := ih hafter
      exact ⟨front', text'', hgives.loop_more hmore, hfinal⟩

theorem gives_take (hsize : source.utf8ByteSize < UInt32.size - 1)
    (h : s.StandsBehind source (front ++ text)) (count : Nat) :
    ∃ front' text', Gives source (take count) (behind source front text s.line) (s.take count).1
        (behind source front' text' (s.take count).2.line) ∧
      (s.take count).2.StandsBehind source (front' ++ text') := by
  induction count generalizing s front text with
  | zero => exact ⟨front, text, gives_pure rfl, h⟩
  | succ count ih =>
      obtain ⟨front', text', hnext, hbehind, -⟩ := gives_next hsize h
      obtain ⟨front'', text'', hmore, hfinal⟩ := ih hbehind
      exact ⟨front'', text'', hnext.bind (hmore.bind (gives_pure rfl)), hfinal⟩

theorem gives_take_of_fixed {s : ByteScanner} {item : Item} (h : Gives source next s item s)
    (count : Nat) : Gives source (take count) s (List.replicate count item) s := by
  induction count with
  | zero => exact gives_pure rfl
  | succ count ih => exact h.bind (ih.bind (gives_pure rfl))

theorem gives_scan (hsize : source.utf8ByteSize < UInt32.size - 1)
    (scanning : Session.Scanning) (h : s.StandsBehind source (front ++ text)) :
    ∃ final, Gives source (loop scanTurn scanning) (behind source front text s.line)
      (s.fold Session.Scanning.add scanning) final := by
  induction scanning, s using Scanner.fold.induct (f := Session.Scanning.add)
    generalizing front text with
  | case1 scanning s item after hnext hend =>
      obtain ⟨front', text', hgives, -⟩ := gives_next hsize h
      have hlast : Item.isEnd s.next.1 = true := by rwa [hnext]
      rw [Scanner.fold_of_end hlast]
      refine ⟨behind source front' text' s.next.2.line, Gives.loop_end (hgives.bind ?_)⟩
      rw [if_pos hlast]
      exact gives_pure rfl
  | case2 scanning s item after hnext hend ih =>
      obtain ⟨front', text', hgives, hbehind, -⟩ := gives_next hsize h
      have hmore : Item.isEnd s.next.1 = false := by simpa [hnext] using hend
      rw [Scanner.fold_of_item hmore]
      rw [hnext] at hgives hbehind hmore ⊢
      obtain ⟨final, hscan⟩ := ih hbehind
      refine ⟨final, Gives.loop_more (hgives.bind ?_) hscan⟩
      rw [if_neg (by simp [hmore])]
      exact gives_pure rfl

end Step

/-- What holds of the byte scanner that this many calls leave behind, in a source with these items
in front of the last one. -/
structure Resumable (source : String) (items : List Item) (last : Item) (count : Nat)
    (s : ByteScanner) : Prop where
  -- the calls give the items and then the last one over and over
  taken : (Step.take count).Gives source (ofSource source)
    (items.take count ++ List.replicate (count - items.length) last) s
  -- one more call reads on, or gives the last item, and then no call changes anything
  next : ∃ item after, Step.next.Gives source s item after ∧
    (Item.isEnd item = false → s.current < after.current) ∧
    (Item.isEnd item = true → item = last ∧
      ∀ more, (Step.take more).Gives source after (List.replicate more last) after)
  -- scanning from here on gives the items that are left, and always the last one
  scanned : ∀ session, ∃ final,
    let left := items.drop count ++ [last]
    let scanning :=
      ((Scanner.ofSource source).take count).2.fold Session.Scanning.add ⟨#[], false, session⟩
    (Step.scan session).Gives source s scanning final ∧
      scanning.tokens.toList = left.filterMap Scan.token? ∧
      scanning.session.log = session.log ++ (left.filterMap Scan.error?).map LexError.diagnostic ∧
      (scanning.hadError = true ↔ ∃ error, Except.error error ∈ left)

open Step

variable {source : String} {front text : List Char} {s : Scanner} {left : List Item} {last : Item}

theorem gives_next_or_last (hsize : source.utf8ByteSize < UInt32.size - 1)
    (h : s.StandsBehind source (front ++ text)) (hleft : s.items = left ++ [last]) :
    ∃ item after, Gives source next (behind source front text s.line) item after ∧
      (Item.isEnd item = false → byteCount front + byteCount text < after.current) ∧
      (Item.isEnd item = true → item = last ∧
        ∀ more, Gives source (take more) after (List.replicate more last) after) := by
  obtain ⟨front', text', hnext, -, hagain⟩ := gives_next hsize h
  refine ⟨_, _, hnext, fun hend => (progress_of_next hnext.outcome hend).current, fun hend => ?_⟩
  have hlast : s.next.1 = last := by
    have hone := Scanner.items_of_isEnd_next hend
    rw [hleft] at hone
    simpa using (congrArg List.getLast? hone).symm
  rw [hlast] at hagain hend ⊢
  exact ⟨rfl, gives_take_of_fixed (hagain hend)⟩

theorem gives_scan_left (hsize : source.utf8ByteSize < UInt32.size - 1)
    (h : s.StandsBehind source (front ++ text)) (hleft : s.items = left) (session : Session) :
    ∃ final,
      let scanning := s.fold Session.Scanning.add ⟨#[], false, session⟩
      Gives source (scan session) (behind source front text s.line) scanning final ∧
        scanning.tokens.toList = left.filterMap Scan.token? ∧
        scanning.session.log =
          session.log ++ (left.filterMap Scan.error?).map LexError.diagnostic ∧
        (scanning.hadError = true ↔ ∃ error, Except.error error ∈ left) := by
  obtain ⟨final, hscan⟩ := gives_scan hsize ⟨#[], false, session⟩ h
  refine ⟨final, hscan, ?_⟩
  rw [Scanner.fold_eq_foldl, hleft]
  obtain ⟨htokens, herror, hlog⟩ := Session.foldl_add left ⟨#[], false, session⟩
  refine ⟨htokens, hlog, ?_⟩
  rw [herror, Bool.false_or, Scan.hadError_iff]
  constructor
  · intro hne
    obtain ⟨error, hmem⟩ := List.exists_mem_of_ne_nil _ hne
    exact ⟨error, Scan.mem_errors_ofItems.1 hmem⟩
  · rintro ⟨error, hmem⟩
    exact List.ne_nil_of_mem (Scan.mem_errors_ofItems.2 hmem)

/-- In a source of fewer bytes than the largest number of 32 bits, the items are those in front of
the end of input and the end of input, at most one more than there are characters. After any number
of calls the scanner stands where it can go on, be it by calls or by scanning the rest; whatever it
does, every slice it cuts lies between boundaries of characters, it counts lines within 32 bits, and
it reads numerals only. What it gives is what the scanner of characters gives. -/
theorem resumable_after_any_calls (source : String)
    (hsize : source.utf8ByteSize < UInt32.size - 1) :
    ∃ items last, (Scanner.ofSource source).items = items ++ [last] ∧
      (∀ item ∈ items, Item.isEnd item = false) ∧ Item.isEnd last = true ∧
      items.length ≤ source.length ∧
      ∀ count, ∃ s, Resumable source items last count s ∧
        ((Scanner.ofSource source).take count).1 =
          items.take count ++ List.replicate (count - items.length) last ∧
        ((Scanner.ofSource source).take count).2.items = items.drop count ++ [last] := by
  obtain ⟨items, last, hitems, hmore, hlast, hle⟩ := (Scanner.ofSource source).exists_items_eq
  refine ⟨items, last, hitems, hmore, hlast, by rwa [← String.length_toList], fun count => ?_⟩
  obtain ⟨htaken, hleft⟩ := Scanner.take_of_items hitems count
  have hstart : (Scanner.ofSource source).StandsBehind source ([] ++ []) :=
    Scanner.standsBehind_ofSource source
  obtain ⟨front, text, hgives, hbehind⟩ := gives_take hsize hstart count
  rw [htaken] at hgives
  exact ⟨_, ⟨hgives, gives_next_or_last hsize hbehind hleft, gives_scan_left hsize hbehind hleft⟩,
    htaken, hleft⟩

/-- The contents of a string over two lines are cut from within its five bytes, and the number
behind it is read from three characters; the sign that is left is found by scanning on. -/
theorem string_and_number_resumable :
    let source := "\"é\n\" 1.5 @"
    let events := ((Step.take 2).run (ofSource source)).events
    source.utf8ByteSize < UInt32.size - 1 ∧
      (∃ event ∈ events, event.act = .cut .contents ∧ event.scanner.start = 0 ∧
        event.scanner.current = 5 ∧ event.Safe source) ∧
      (∃ event ∈ events, event.act = .readNumber "1.5" ∧ event.Safe source) ∧
      ∃ items last s, items.length = 3 ∧ Resumable source items last 2 s ∧
        ∃ error, Except.error error ∈ items.drop 2 ++ [last] := by
  intro source events
  have hsize : source.utf8ByteSize < UInt32.size - 1 := by decide +kernel
  obtain ⟨items, last, hitems, -, -, -, hcalls⟩ := resumable_after_any_calls source hsize
  obtain ⟨s, hs, -⟩ := hcalls 2
  have hcut : (Act.cut .contents, 0, 5) ∈ events.map fun event =>
      (event.act, event.scanner.start, event.scanner.current) := by decide +kernel
  have hread : Act.readNumber "1.5" ∈ events.map Event.act := by decide +kernel
  obtain ⟨event, hevent, heq⟩ := List.mem_map.1 hcut
  obtain ⟨event', hevent', hact⟩ := List.mem_map.1 hread
  have hlength : (Scanner.ofSource source).items.length = 4 := by decide +kernel
  obtain ⟨final, -, -, -, herror⟩ := hs.scanned {}
  refine ⟨hsize, ⟨event, hevent, ?_⟩, ⟨event', hevent', hact, hs.taken.safe event' hevent'⟩,
    items, last, s, ?_, hs, herror.1 (by decide +kernel)⟩
  · simp only [Prod.mk.injEq] at heq
    exact ⟨heq.1, heq.2.1, heq.2.2, hs.taken.safe event hevent⟩
  · simpa [hitems] using hlength

end ByteScanner
end Lox
