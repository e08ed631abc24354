import PotExtract.Proofs.Outcome
import PotExtract.Proofs.Template.Sentences

/-! A walk over a tree comes upon what recursion over the tree finds. A visit leaves the stacks as
they were, and of the sentences that were there before, it writes into the current one alone. -/

namespace PotExtract.Template

open Text Markup

variable {ctx : ScanContext}

/-! ### Reports in a row -/

/-- The report of two scans, of which the second is made if the first succeeds. -/
def inARow (a b : ScanReport) : ScanReport :=
  match a.outcome with
  | .ok messages => ⟨a.remarks ++ b.remarks, b.outcome.map (messages ++ ·)⟩
  | .error e => ⟨a.remarks, .error e⟩

theorem inARow_assoc (a b c : ScanReport) : inARow (inARow a b) c = inARow a (inARow b c) := by
  unfold inARow
  rcases a with ⟨_, _ | _⟩ <;> rcases b with ⟨_, _ | _⟩ <;> rcases c with ⟨_, _ | _⟩ <;>
    simp [Except.map, List.append_assoc]

/-- The report of one find. -/
def Find.report (ctx : ScanContext) : Find → ScanReport
  | .problem e => { outcome := .error e }
  | .message m => { outcome := .ok [m] }
  | .code source line => ⟨(scanCode ctx source line).1, (scanCode ctx source line).2⟩

theorem collect_cons (find : Find) (finds : List Find) :
    collect ctx (find :: finds) = inARow (find.report ctx) (collect ctx finds) := by
  cases find with
  | problem e => rfl
  | message m => rfl
  | code code line =>
    rw [collect, Find.report, inARow]
    rcases scanCode ctx code line with ⟨remarks, _ | messages⟩ <;> rfl

theorem collect_append (finds more : List Find) :
    collect ctx (finds ++ more) = inARow (collect ctx finds) (collect ctx more) := by
  induction finds with
  | nil =>
    rw [List.nil_append]
    rcases collect ctx more with ⟨remarks, _ | messages⟩ <;> rfl
  | cons find finds ih => rw [List.cons_append, collect_cons, collect_cons, ih, inARow_assoc]

/-! ### Visits that come upon finds -/

/-- What a visit gives that starts in the state `w` and comes upon `finds`: it leaves a state as
told, with their messages and remarks behind those of `w`, or it ends at their problem. -/
inductive ComesUpon {α : Type} (ctx : ScanContext) (w : Walk) (finds : List Find)
    (told : α → Walk → Prop) : EStateM.Result ScanError Walk α → Prop
  | ok {a : α} {after : Walk} {remarks : List Remark} {messages : List Message} :
    collect ctx finds = ⟨remarks, .ok messages⟩ → after.remarks = w.remarks ++ remarks →
      after.messages = w.messages ++ messages → told a after →
      ComesUpon ctx w finds told (.ok a after)
  | error {e : ScanError} {after : Walk} {remarks : List Remark} :
    collect ctx finds = ⟨remarks, .error e⟩ → after.remarks = w.remarks ++ remarks →
      ComesUpon ctx w finds told (.error e after)

theorem Visit.bind_of_ok {α β : Type} {x : Visit α} {a : α} {w after : Walk} (h : x w = .ok a after)
    (k : α → Visit β) : (x >>= k) w = k a after := by
  show EStateM.bind x k w = _
  rw [EStateM.bind, h]

theorem Visit.bind_of_error {α β : Type} {x : Visit α} {e : ScanError} {w after : Walk}
    (h : x w = .error e after) (k : α → Visit β) : (x >>= k) w = .error e after := by
  show EStateM.bind x k w = _
  rw [EStateM.bind, h]

namespace ComesUpon

variable {α β : Type} {w : Walk} {finds more : List Find} {told : α → Walk → Prop}

theorem bind {told' : β → Walk → Prop} {x : Visit α} {k : α → Visit β}
    (hx : ComesUpon ctx w finds told (x w))
    (hk : ∀ a after, told a after → ComesUpon ctx after more told' (k a after)) :
    ComesUpon ctx w (finds ++ more) told' ((x >>= k) w) := by
  cases hresult : x w with
  | error e after =>
    rw [hresult] at hx
    rw [Visit.bind_of_error hresult]
    obtain - | ⟨hcollects, hremarks⟩ := hx
    exact .error (by rw [collect_append, hcollects]; rfl) hremarks
  | ok a after =>
    rw [hresult] at hx
    rw [Visit.bind_of_ok hresult]
    obtain ⟨hcollects, hremarks, hmessages, htold⟩ | - := hx
    have hnext := hk a after htold
    generalize k a after = next at hnext ⊢
    cases hnext with
    | error hcollects' hremarks' =>
      refine .error (by rw [collect_append, hcollects, hcollects']; rfl) ?_
      rw [hremarks', hremarks, List.append_assoc]
    | ok hcollects' hremarks' hmessages' htold' =>
      refine .ok (by rw [collect_append, hcollects, hcollects']; rfl) ?_ ?_ htold'
      · rw [hremarks', hremarks, List.append_assoc]
      · rw [hmessages', hmessages, List.append_assoc]

theorem mono {told' : α → Walk → Prop} {r : EStateM.Result ScanError Walk α}
    (h : ComesUpon ctx w finds told r) (himp : ∀ a after, told a after → told' a after) :
    ComesUpon ctx w finds told' r := by
  cases h with
  | ok hcollects hremarks hmessages htold => exact .ok hcollects hremarks hmessages (himp _ _ htold)
  | error hcollects hremarks => exact .error hcollects hremarks

/-- What changes neither messages nor remarks comes upon nothing. -/
theorem silent {a : α} {after : Walk} (hremarks : after.remarks = w.remarks)
    (hmessages : after.messages = w.messages) (htold : told a after) :
    ComesUpon ctx w [] told (.ok a after) :=
  .ok rfl (by rw [hremarks, List.append_nil]) (by rw [hmessages, List.append_nil]) htold

end ComesUpon

/-! ### Code -/

theorem comesUpon_visitCode (w : Walk) (code : String) (line : Nat) :
    ComesUpon ctx w [.code code line] (fun _ after => w.SaysMore after)
      (visitCode ctx code line w) := by
  unfold visitCode
  rcases hscan : scanCode ctx code line with ⟨remarks, e | messages⟩
  · exact .error (by rw [collect, hscan]) rfl
  · have hcollects : collect ctx [.code code line] = ⟨remarks, .ok messages⟩ := by
      simp [collect, hscan, Except.map]
    exact .ok hcollects rfl rfl ⟨rfl, rfl, rfl, rfl⟩

theorem comesUpon_forM {β : Type} {finds : β → List Find} {visit : β → Visit Unit}
    (h : ∀ b w, ComesUpon ctx w (finds b) (fun _ after => w.SaysMore after) (visit b w))
    (bs : List β) (w : Walk) :
    ComesUpon ctx w (bs.flatMap finds) (fun _ after => w.SaysMore after) (bs.forM visit w) := by
  induction bs generalizing w with
  | nil => exact .silent rfl rfl (.refl w)
  | cons b bs ih =>
    rw [List.flatMap_cons]
    refine (h b w).bind fun _ after hafter => ?_
    exact (ih after).mono fun _ _ hlater => hafter.trans hlater

theorem comesUpon_visitAttribute (a : ResolvedAttribute) (w : Walk) :
    ComesUpon ctx w (attributeFinds ctx a) (fun _ after => w.SaysMore after)
      (visitAttribute ctx a w) := by
  unfold attributeFinds visitAttribute
  cases attributeCode ctx a (decodeEntities a.value.toList) with
  | ok codes =>
    dsimp only
    rw [List.map_eq_flatMap]
    exact comesUpon_forM (fun code w => comesUpon_visitCode w code a.line) codes w
  | error e => exact .error rfl (List.append_nil _).symm

theorem comesUpon_visitText (text : String) (line : Nat) (w : Walk) :
    ComesUpon ctx w (textFinds ctx text line) (fun _ after => w.Visits [.text text line] after)
      (visitText ctx text line w) := by
  unfold textFinds visitText
  dsimp only
  cases Tales.interpolations .python (decodeEntities text.toList) with
  | error fragment => exact .error rfl (List.append_nil _).symm
  | ok found =>
    dsimp only
    rw [List.map_eq_flatMap, ← List.append_nil (List.flatMap _ found)]
    refine (comesUpon_forM (fun i w => comesUpon_visitCode w _ _) found w).bind
      fun _ after hafter => ?_
    have hcurrent : after.current? = w.current? := by
      rw [Walk.current?, Walk.current?, hafter.translate]
    have hreads := after.readsInto_read text
    rw [hcurrent, hafter.sentences] at hreads
    show ComesUpon ctx after [] _ (.ok () (after.read text))
    rw [after.read_eq]
    exact .silent rfl rfl
      ⟨hafter.namespaces, hafter.scopes, hafter.translate, [], hreads, .nil⟩

/-! ### Elements -/

theorem enterElement_eq (tag : Tag) (w : Walk) :
    enterElement ctx tag w =
      (do
        ((w.frame.enter tag).resolve tag).forM (visitAttribute ctx)
        modify fun later =>
          { later with
            scopes := (w.frame.enter tag).scope :: later.scopes
            translate := (w.opened ctx tag).1 :: later.translate }
        return (w.opened ctx tag).1 : Visit (Option Nat)) (w.opened ctx tag).2 :=
  rfl

theorem collect_map_message (messages : List Message) :
    collect ctx (messages.map .message) = ⟨[], .ok messages⟩ := by
  induction messages with
  | nil => rfl
  | cons m messages ih => simp [collect, ih, Except.map]

/-- Messages that are there before a visit starts are found in front of it. -/
theorem ComesUpon.behind {α : Type} {w start : Walk} {finds : List Find} {told : α → Walk → Prop}
    {result : EStateM.Result ScanError Walk α} {messages : List Message}
    (h : ComesUpon ctx start finds told result) (hremarks : start.remarks = w.remarks)
    (hmessages : start.messages = w.messages ++ messages) :
    ComesUpon ctx w (messages.map .message ++ finds) told result := by
  cases h with
  | ok hcollects hremarks' hmessages' htold =>
    refine .ok (by rw [collect_append, collect_map_message, hcollects]; rfl) ?_ ?_ htold
    · rw [hremarks', hremarks, List.nil_append]
    · rw [hmessages', hmessages, List.append_assoc]
  | error hcollects hremarks' =>
    refine .error (by rw [collect_append, collect_map_message, hcollects]; rfl) ?_
    rw [hremarks', hremarks, List.nil_append]

theorem comesUpon_enterElement {w : Walk} (hopen : w.IsOpen) (tag : Tag) :
    ComesUpon ctx w (tagFinds ctx (w.frame.enter tag) tag) (w.Enters tag)
      (enterElement ctx tag w) := by
  rw [enterElement_eq, tagFinds]
  have hremarks : (w.opened ctx tag).2.remarks = w.remarks := by rw [Walk.opened_snd]
  have hmessages : (w.opened ctx tag).2.messages =
      w.messages ++ attributeMessages ctx (w.frame.enter tag) tag := by rw [Walk.opened_snd]
  refine ComesUpon.behind ?_ hremarks hmessages
  rw [← List.append_nil (List.flatMap _ _)]
  refine (comesUpon_forM comesUpon_visitAttribute _ _).bind fun _ later hlater => ?_
  exact .silent rfl rfl (Walk.enters_opened hopen hlater)

/-! ### Messages of sentences -/

/-- The message of a sentence is that of its element, if the sentence has the text of the element
and refers to those that the element refers to. -/
theorem message?_eq {w : Walk} {s : Sentence} {t : Translated} (hscope : s.scope = t.frame.scope)
    (hmsgid : s.msgid = if (trimmed t.msgid).isEmpty then none else some (trimmed t.msgid))
    (hline : s.line = t.tag.line) (htext : s.text = sentence t.frame t.children)
    (hnamed : s.named.map (fun r => (r.1, w.text r.2)) = namedSentences t.frame t.children)
    (hparent : s.parent.map w.text = t.around.map fun text => String.ofList (normalize text)) :
    w.message? ctx s = t.message? ctx.file ctx.options.domain := by
  have hid : s.idAndDefault = t.idAndDefault := by
    unfold Sentence.idAndDefault Translated.idAndDefault
    rw [hmsgid, htext]
    cases (trimmed t.msgid).isEmpty <;> rfl
  have hignorable : s.isIgnorable =
      ((trimmed t.msgid).isEmpty && isDynamic (sentence t.frame t.children)) := by
    rw [Sentence.isIgnorable, hmsgid, htext]
    cases (trimmed t.msgid).isEmpty <;> rfl
  have husage : (s.parent.map fun i => s!"Used in sentence: \"{w.text i}\"") =
      t.around.map fun text => s!"Used in sentence: \"{String.ofList (normalize text)}\"" := by
    have hmap := congrArg (Option.map fun text => s!"Used in sentence: \"{text}\"") hparent
    rwa [Option.map_map, Option.map_map] at hmap
  have hcomment : w.comment s = t.comment := by
    unfold Walk.comment Translated.comment
    rw [hid, hscope, ← hnamed, List.map_map, husage]
    rfl
  unfold Walk.message? Translated.message?
  rw [hid, hignorable, hscope, hcomment, hline]
  cases t.frame.scope.domain with
  | none => exact ite_self none
  | some domain =>
    dsimp only
    rw [Bool.or_comm]

theorem comesUpon_leaveElement {w : Walk} {own : Option Nat} {messages : List Message}
    (h : ((own.bind fun i => w.sentences[i]?).bind (w.message? ctx)).toList = messages) :
    ComesUpon ctx w (messages.map .message)
      (fun _ after => after.namespaces = w.namespaces.tail ∧ after.scopes = w.scopes.tail ∧
        after.translate = w.translate.tail ∧ after.sentences = w.sentences)
      (leaveElement ctx own w) := by
  cases own with
  | none =>
    cases h
    exact .silent rfl rfl ⟨rfl, rfl, rfl, rfl⟩
  | some i =>
    refine .ok (collect_map_message messages) (List.append_nil _).symm ?_ ⟨rfl, rfl, rfl, rfl⟩
    rw [← h]
    rfl

theorem Walk.Enters.message {a b c : Walk} {tag : Tag} {children : List Node} {own : Option Nat}
    (h : Enters tag a own b) (hv : Visits children b c) (hopen : a.IsOpen) :
    ((own.bind fun i => c.sentences[i]?).bind (c.message? ctx)).toList.map Find.message =
      endFinds ctx (a.frame.enter tag) tag children
        (a.soFar.map (· ++ nodeText a.frame (.element tag children))) := by
  unfold endFinds
  cases hmark : (a.frame.enter tag).mark? tag "translate" with
  | none =>
    have hown := h.own_eq
    rw [hmark] at hown
    rw [hown]
    rfl
  | some msgid =>
    obtain ⟨s, hs, hscope, hline, hparent, hmsgid, htext, hnames⟩ := h.exists_read hv hmark
    have hown := h.own_eq
    rw [hmark] at hown
    have hmessage : c.message? ctx s = Translated.message?
        ⟨a.frame.enter tag, tag, children, msgid,
          a.soFar.map (· ++ nodeText a.frame (.element tag children))⟩
        ctx.file ctx.options.domain :=
      message?_eq hscope hmsgid hline htext hnames.map_text
        (by rw [hparent, h.text_parent hv hopen])
    rw [hown, Option.map_some, Option.bind_some, hs, Option.bind_some, hmessage]
    exact Option.toList_map.symm

/-! ### Visits -/

mutual

theorem comesUpon_visitNode (node : Node) {w : Walk} (hopen : w.IsOpen) :
    ComesUpon ctx w (nodeFinds ctx w.frame (w.soFar.map (· ++ nodeText w.frame node)) node)
      (fun _ => w.Visits [node]) (visitNode ctx node w) := by
  cases node with
  | element tag children =>
    rw [nodeFinds, visitNode, List.append_assoc]
    refine (comesUpon_enterElement hopen tag).bind fun own inside hinside => ?_
    have hchildren := comesUpon_visitNodes children hinside.isOpen
    rw [hinside.frame, hinside.soFar] at hchildren
    refine hchildren.bind fun _ read hread => ?_
    rw [← hinside.message hread hopen]
    refine (comesUpon_leaveElement rfl).mono ?_
    rintro _ after ⟨hnamespaces, hscopes, htranslate, hsentences⟩
    exact hinside.visits hread hnamespaces hscopes htranslate hsentences
  | text text line => exact comesUpon_visitText text line w
  | _ => exact .silent rfl rfl ⟨rfl, rfl, rfl, [], .refl _ _, .nil⟩

/-- A walk over nodes comes upon what is found in them, and leaves the stacks and the other sentences
as they were. -/
theorem comesUpon_visitNodes (nodes : List Node) {w : Walk} (hopen : w.IsOpen) :
    ComesUpon ctx w (nodesFinds ctx w.frame w.soFar nodes) (fun _ => w.Visits nodes)
      (visitNodes ctx nodes w) := by
  cases nodes with
  | nil => exact .silent rfl rfl ⟨rfl, rfl, rfl, [], .refl _ _, .nil⟩
  | cons node rest =>
    rw [nodesFinds, visitNodes]
    refine (comesUpon_visitNode node hopen).bind fun _ after hafter => ?_
    have hrest := comesUpon_visitNodes rest (hafter.isOpen hopen)
    rw [hafter.frame, hafter.soFar hopen, List.flatMap_singleton] at hrest
    exact hrest.mono fun _ _ hlater => hafter.trans hlater hopen

end

/-- A scan gives what recursion over the tree finds. -/
theorem scanNodes_eq_collect (nodes : List Node) :
    scanNodes ctx nodes = collect ctx (nodesFinds ctx {} none nodes) := by
  have hopen : Walk.IsOpen {} := fun i hi => nomatch hi
  have hnodes : ComesUpon ctx {} (nodesFinds ctx {} none nodes) (fun _ => Walk.Visits nodes {})
      (visitNodes ctx nodes {}) := comesUpon_visitNodes nodes hopen
  unfold scanNodes EStateM.run
  cases hresult : visitNodes ctx nodes {} with
  | ok a after =>
    rw [hresult] at hnodes
    obtain ⟨hcollects, hremarks, hmessages, -⟩ | - := hnodes
    dsimp only
    rw [hcollects, hremarks, hmessages]
    rfl
  | error e after =>
    rw [hresult] at hnodes
    obtain - | ⟨hcollects, hremarks⟩ := hnodes
    dsimp only
    rw [hcollects, hremarks]
    rfl

end PotExtract.Template
