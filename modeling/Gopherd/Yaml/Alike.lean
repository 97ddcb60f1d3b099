import Gopherd.Lib.Lockstep
import Gopherd.Yaml.Accepted

namespace Gopherd.Yaml

open Go

section Results

variable {block : BlockParser} {left : Nat}

theorem ValueRead.eq_ok (h : ValueRead block left line value rest val lines) :
    parseValue block left line value rest = .ok (val, lines) := by
  cases h with
  | literal hliteral => simp only [parseValue, hliteral]
  | inline hliteral hvalue hval => simp only [parseValue, hliteral, if_pos hvalue, hval]
  | absent hliteral hvalue hnext =>
    subst hvalue
    cases rest with
    | nil => simp [parseValue, hliteral, parseChild]
    | cons next more => simp [parseValue, hliteral, parseChild, hnext next rfl]
  | child hliteral hvalue hrest hnext hblock =>
    subst hvalue hrest
    simp only [parseValue, hliteral, parseChild, ne_eq, not_true_eq_false, if_false,
      if_neg (Nat.not_le.mpr hnext)]
    exact hblock

theorem EntriesRead.eq_ok (hblock : Shrinks block)
    (h : EntriesRead block left base minIndent seen lines entries rest)
    (hfuel : lines.length ≤ fuel) :
    parseEntries block left fuel base minIndent seen lines = .ok (entries, rest) := by
  induction h generalizing fuel with
  | @stop base minIndent seen lines hstop =>
    cases fuel with
    | zero => rfl
    | succ fuel =>
      cases lines with
      | nil => rfl
      | cons line more =>
        have hnot := hstop line rfl
        rw [inside_iff, not_and_or, not_not, not_not] at hnot
        rw [parseEntries]
        split_ifs with hindent hbase
        · rfl
        · rfl
        · exact absurd hnot (by simp [hindent, hbase])
  | @entry base minIndent seen line rest lines tail i val entries hinside hcolon hseen hvalue
      _ ih =>
    cases fuel with
    | zero => simp at hfuel
    | succ fuel =>
      obtain ⟨hindent, hbase⟩ := inside_iff.mp hinside
      have hlength := hvalue.length_le hblock
      rw [List.length_cons] at hfuel
      rw [parseEntries, if_neg hindent, if_neg hbase]
      simp only [hcolon, hseen]
      exact Except.bind_eq_ok.mpr
        ⟨_, hvalue.eq_ok, Except.bind_eq_ok.mpr ⟨_, ih (by omega), rfl⟩⟩

theorem ItemRead.eq_ok (h : ItemRead block left seqIndent line itemText more item) :
    parseItem block left seqIndent line itemText more = .ok item := by
  cases h with
  | inline hmore hinline hitem =>
    rw [parseItem, if_pos ⟨hmore, hinline⟩, hitem]
  | block hnot hitem =>
    rw [parseItem, if_neg hnot]
    exact Except.bind_eq_ok.mpr ⟨_, hitem, rfl⟩

theorem ItemsRead.eq_ok (h : ItemsRead block left seqIndent lines items rest)
    (hfuel : lines.length ≤ fuel) :
    parseItems block left seqIndent fuel lines = .ok (items, rest) := by
  induction h generalizing fuel with
  | @stop lines hstop =>
    cases fuel with
    | zero => rfl
    | succ fuel =>
      cases lines with
      | nil => rfl
      | cons line more =>
        rw [parseItems, if_pos]
        by_contra hitem
        rw [not_or] at hitem
        exact hstop line rfl ⟨by simpa using hitem.1, by simpa using hitem.2⟩
  | @literal line rest tail text items hline hliteral htext _ ih =>
    cases fuel with
    | zero => simp at hfuel
    | succ fuel =>
      rw [List.length_cons] at hfuel
      rw [parseItems, if_neg (by simp [hline.1, hline.2])]
      simp only [htext]
      rw [if_pos ⟨by simpa using hliteral.2.1, hliteral.2.2⟩]
      exact Except.bind_eq_ok.mpr ⟨_, ih (by omega), rfl⟩
  | @item line rest tail item items hline hliteral hitem _ ih =>
    cases fuel with
    | zero => simp at hfuel
    | succ fuel =>
      have hdrop := (List.dropWhile_suffix (fun l : Line => decide (seqIndent < l.indent))
        (l := rest)).length_le
      rw [List.length_cons] at hfuel
      have hrest := ih (show _ ≤ fuel by omega)
      rw [parseItems, if_neg (by simp [hline.1, hline.2])]
      simp only
      split
      · rename_i text htext
        rw [if_neg]
        · exact Except.bind_eq_ok.mpr ⟨_, hitem.eq_ok, Except.bind_eq_ok.mpr ⟨_, hrest, rfl⟩⟩
        · rintro ⟨hdash, hcolon⟩
          exact hliteral ⟨by simp [htext], by simpa using hdash, hcolon⟩
      · exact Except.bind_eq_ok.mpr ⟨_, hitem.eq_ok, Except.bind_eq_ok.mpr ⟨_, hrest, rfl⟩⟩

end Results

theorem BlockRead.eq_ok (h : BlockRead left minIndent lines node rest) :
    parseBlock (left + 1) lines minIndent = .ok (node, rest) := by
  cases h with
  | empty => rfl
  | sequence hdash hitems =>
    rw [parseBlock]
    simp only [hdash, if_true]
    exact Except.bind_eq_ok.mpr ⟨_, hitems.eq_ok (Nat.le_refl _), rfl⟩
  | mapping hdash hentries =>
    rw [parseBlock]
    simp only [hdash, Bool.false_eq_true, if_false]
    exact Except.bind_eq_ok.mpr
      ⟨_, hentries.eq_ok (parseBlock_shrinks left) (Nat.le_refl _), rfl⟩

structure Alike (line other : Line) : Prop where
  text : other.text = line.text
  indent : other.indent = line.indent
  literal : other.literal.isSome = line.literal.isSome

theorem Alike.refl (line : Line) : Alike line line :=
  ⟨rfl, rfl, rfl⟩

theorem Alike.literal_none (h : Alike line other) (hnone : line.literal = none) :
    other.literal = none := by
  simpa [hnone] using h.literal

theorem Alike.literal_some (h : Alike line other) {text : Bytes}
    (hsome : line.literal = some text) : ∃ text', other.literal = some text' := by
  simpa [hsome, Option.isSome_iff_exists] using h.literal

def AcceptsAlike (block : BlockParser) : Prop :=
  ∀ ⦃lines lines' minIndent node rest⦄, List.Forall₂ Alike lines lines' →
    block lines minIndent = .ok (node, rest) →
    ∃ node' rest', block lines' minIndent = .ok (node', rest') ∧ List.Forall₂ Alike rest rest'

theorem head_indent_alike (h : List.Forall₂ Alike lines lines') {P : Nat → Prop}
    (hhead : ∀ line ∈ lines.head?, P line.indent) : ∀ line ∈ lines'.head?, P line.indent := by
  cases h with
  | nil => simp
  | cons halike _ =>
    rintro _ ⟨⟩
    rw [halike.indent]
    exact hhead _ rfl

section Alike

variable {block : BlockParser} {left : Nat}

theorem ValueRead.alike (hblock : AcceptsAlike block) {value : Bytes} (hline : Alike line line')
    (hrest : List.Forall₂ Alike rest rest') (h : ValueRead block left line value rest val lines) :
    ∃ val' lines', ValueRead block left line' value rest' val' lines' ∧
      List.Forall₂ Alike lines lines' := by
  cases h with
  | literal hliteral =>
    obtain ⟨text', htext'⟩ := hline.literal_some hliteral
    exact ⟨_, rest', .literal htext', hrest⟩
  | inline hliteral hvalue hval =>
    exact ⟨_, rest', .inline (hline.literal_none hliteral) hvalue hval, hrest⟩
  | absent hliteral hvalue hnext =>
    refine ⟨_, rest', .absent (hline.literal_none hliteral) hvalue ?_, hrest⟩
    rw [hline.indent]
    exact head_indent_alike (P := fun indent => indent ≤ line.indent) hrest hnext
  | child hliteral hvalue hsplit hnext hval =>
    obtain ⟨val', lines', hval', hlines⟩ := hblock hrest hval
    subst hsplit
    cases hrest with
    | cons hfirst hmore =>
      refine ⟨val', lines', .child (hline.literal_none hliteral) hvalue rfl ?_ ?_, hlines⟩
      · rw [hline.indent, hfirst.indent]
        exact hnext
      · rw [hline.indent]
        exact hval'

theorem EntriesRead.alike (hblock : AcceptsAlike block)
    (h : EntriesRead block left base minIndent seen lines entries rest)
    (hseen : seen'.map Prod.fst = seen.map Prod.fst) (hlines : List.Forall₂ Alike lines lines') :
    ∃ entries' rest', EntriesRead block left base minIndent seen' lines' entries' rest' ∧
      List.Forall₂ Alike rest rest' := by
  induction h generalizing seen' lines' with
  | @stop base minIndent seen lines hstop =>
    refine ⟨[], lines', .stop ?_, hlines⟩
    exact head_indent_alike
      (P := fun indent => ¬ (minIndent < indent ∧ (base = none ∨ base = some indent)))
      hlines hstop
  | @entry base minIndent seen line more lines tail i val entries hinside hcolon hnew hvalue _ ih =>
    cases hlines with
    | @cons _ line' _ more' hline hmore =>
      obtain ⟨val', lines', hvalue', hafter⟩ := hvalue.alike hblock hline hmore
      have hnew' : seen'.lookup (trimSpaces (line.text.take i)) = none := by
        rw [List.lookup_eq_none_iff] at hnew ⊢
        intro pair hpair
        have hkey : pair.1 ∈ seen.map Prod.fst := hseen ▸ List.mem_map_of_mem hpair
        obtain ⟨other, hother, hsame⟩ := List.mem_map.mp hkey
        rw [← hsame]
        exact hnew other hother
      have hkeys : ((trimSpaces (line.text.take i), line'.num) :: seen').map Prod.fst =
          ((trimSpaces (line.text.take i), line.num) :: seen).map Prod.fst := by
        simp [hseen]
      obtain ⟨entries', rest', hentries', htail⟩ := ih hkeys hafter
      have hinside' : Inside base minIndent line' := by
        unfold Inside
        rw [hline.indent]
        exact hinside
      rw [← hline.text] at hcolon hnew' hvalue' hentries'
      rw [← hline.indent] at hentries'
      exact ⟨_, rest', .entry hinside' hcolon hnew' hvalue' hentries', htail⟩

theorem ItemRead.alike (hblock : AcceptsAlike block) (hline : Alike line line')
    (hmore : List.Forall₂ Alike more more')
    (h : ItemRead block left seqIndent line itemText more item) :
    ∃ item', ItemRead block left seqIndent line' itemText more' item' := by
  cases h with
  | inline hnil hinline hitem =>
    subst hnil
    cases hmore
    exact ⟨item, .inline rfl hinline hitem⟩
  | block hnot hitem =>
    have hfirst : Alike { line with text := itemText, indent := seqIndent + 2 }
        { line' with text := itemText, indent := seqIndent + 2 } := ⟨rfl, rfl, hline.literal⟩
    obtain ⟨item', rest', hitem', hrest⟩ := hblock (.cons hfirst hmore) hitem
    cases hrest
    refine ⟨item', .block ?_ hitem'⟩
    rintro ⟨rfl, hinline⟩
    exact hnot ⟨List.forall₂_nil_right_iff.mp hmore, hinline⟩

theorem ItemsRead.alike (hblock : AcceptsAlike block) {lines lines' rest : List Line}
    (h : ItemsRead block left seqIndent lines items rest)
    (hlines : List.Forall₂ Alike lines lines') :
    ∃ items' rest', ItemsRead block left seqIndent lines' items' rest' ∧
      List.Forall₂ Alike rest rest' := by
  have hitem : ∀ {line line' : Line}, Alike line line' →
      (IsItem seqIndent line' ↔ IsItem seqIndent line) := by
    intro line line' halike
    rw [IsItem, IsItem, halike.indent, halike.text]
  have hliteralItem : ∀ {line line' : Line}, Alike line line' →
      (LiteralItem line' ↔ LiteralItem line) := by
    intro line line' halike
    rw [LiteralItem, LiteralItem, halike.text, ← Option.isSome_iff_ne_none,
      ← Option.isSome_iff_ne_none, halike.literal]
  induction h generalizing lines' with
  | stop hstop =>
    refine ⟨[], lines', .stop ?_, hlines⟩
    cases hlines with
    | nil => simp
    | cons halike _ =>
      rintro _ ⟨⟩ hmarker
      exact hstop _ rfl ((hitem halike).mp hmarker)
  | literal hline hliteral htext _ ih =>
    cases hlines with
    | cons halike hmore =>
      obtain ⟨text', htext'⟩ := halike.literal_some htext
      obtain ⟨items', rest', hitems, hrest⟩ := ih hmore
      exact ⟨_, rest', .literal ((hitem halike).mpr hline) ((hliteralItem halike).mpr hliteral)
        htext' hitems, hrest⟩
  | item hline hliteral hread _ ih =>
    cases hlines with
    | cons halike hmore =>
      obtain ⟨hbelow, hafter⟩ := Lockstep.span (q := fun l : Line => seqIndent < l.indent)
        (p := fun l : Line => seqIndent < l.indent)
        (fun a b hab => by rw [hab.indent]) hmore
      obtain ⟨item', hread'⟩ := hread.alike hblock halike hbelow
      obtain ⟨items', rest', hitems, hrest⟩ := ih hafter
      rw [← halike.text] at hread'
      exact ⟨_, rest', .item ((hitem halike).mpr hline)
        (fun h => hliteral ((hliteralItem halike).mp h)) hread' hitems, hrest⟩

end Alike

theorem parseBlock_alike (left : Nat) : AcceptsAlike (parseBlock left) := by
  induction left with
  | zero =>
    intro lines lines' minIndent node rest _ h
    cases h
  | succ left ih =>
    intro lines lines' minIndent node rest hlines h
    cases parseBlock_read h with
    | empty =>
      cases hlines
      exact ⟨_, _, rfl, .nil⟩
    | sequence hdash hitems =>
      obtain ⟨items', rest', hitems', hrest⟩ := hitems.alike ih hlines
      cases hlines with
      | cons halike hmore =>
        rw [← halike.indent] at hitems'
        rw [← halike.text] at hdash
        exact ⟨_, rest', (BlockRead.sequence hdash hitems').eq_ok, hrest⟩
    | mapping hdash hentries =>
      obtain ⟨entries', rest', hentries', hrest⟩ := hentries.alike ih rfl hlines
      cases hlines with
      | cons halike hmore =>
        rw [← halike.text] at hdash
        exact ⟨_, rest', (BlockRead.mapping hdash hentries').eq_ok, hrest⟩

/-- Documents whose content lines are alike are accepted alike. -/
theorem parse_alike (hparse : parse data = .ok node) (hlines : contentLines data = .ok lines)
    (hlines' : contentLines data' = .ok lines') (halike : List.Forall₂ Alike lines lines') :
    ∃ node', parse data' = .ok node' := by
  obtain ⟨lines₁, hlines₁, hblock⟩ := parse_read hparse
  obtain rfl := Except.ok.inj (hlines.symm.trans hlines₁)
  obtain ⟨node', rest', hblock', hrest⟩ := parseBlock_alike _ halike hblock
  cases hrest
  refine ⟨node', Except.bind_eq_ok.mpr ⟨lines', hlines', ?_⟩⟩
  exact Except.bind_eq_ok.mpr ⟨_, hblock', rfl⟩

end Gopherd.Yaml
