/-
# A frame is read as what was put into it

A frame may be written in many ways (`IsFrame`): its members in any order, blanks around every
token, its texts in any spelling, and other members of any shape among them.  All of them are read
as one frame, and the frame of a command is one of them, without a control character in it.

The reader takes the whole text for an object, whose known members are then a permutation of the
fields that were put in (`Fields.filter_perm`), and what it asks for by name does not depend on the
order (`Fields.record`).
-/
import ServerWarden.Proofs.Json.Records
import ServerWarden.Proofs.Json.Written
import ServerWarden.Rcon.Frame

namespace ServerWarden.Rcon

open ServerWarden.Json

/-! ## 1. How a frame may be written -/

/-- The names that the reader of frames knows. -/
def fieldNames : List String := ["Identifier", "Message", "Type"]

/-- `Fields i m t ms`: the members that carry a frame, with their values as they stand. -/
inductive Fields (i : Int) (m : String) : Option String → List (String × List Char) → Prop where
  | untyped {body : List Char} : Spelled m.toList body →
      Fields i m none [("Identifier", (toString i).toList), ("Message", inQuotes body)]
  | typed {t : String} {body body' : List Char} : Spelled m.toList body → Spelled t.toList body' →
      Fields i m (some t) [("Identifier", (toString i).toList), ("Message", inQuotes body),
        ("Type", inQuotes body')]

/-- **`IsFrame i m t text`: an object with the members of the frame**, and with others of any name
that the reader does not know and of any value. -/
inductive IsFrame (i : Int) (m : String) (t : Option String) (text : String) : Prop where
  | mk {fields others members : List (String × List Char)} {cs : List Char} : Fields i m t fields →
      (∀ o ∈ others, o.1 ∉ fieldNames ∧ Derives .value o.2) → members.Perm (fields ++ others) →
      Members members cs → Padded ('{' :: (cs ++ ['}'])) text.toList → IsFrame i m t text

/-! ## 2. What is read of it -/

section

variable {i : Int} {m : String} {t : Option String}
  {fields others members : List (String × List Char)} {value : String × List Char → Json}
  {text : String}

theorem Fields.names (h : Fields i m t fields) :
    (∀ f ∈ fields, f.1 ∈ fieldNames) ∧ (fields.map Prod.fst).Nodup := by
  cases h <;> simp [fieldNames]

theorem Fields.isRead (h : Fields i m t fields) : ∀ f ∈ fields, ∃ v, ReadsAs f.2 v := by
  obtain ⟨n, hn, -⟩ := readsAs_decimal i
  cases h with
  | untyped hm =>
    simp only [List.forall_mem_cons]
    exact ⟨⟨_, hn⟩, ⟨_, hm.namedAs.readsAs⟩, by simp⟩
  | typed hm ht =>
    simp only [List.forall_mem_cons]
    exact ⟨⟨_, hn⟩, ⟨_, hm.namedAs.readsAs⟩, ⟨_, ht.namedAs.readsAs⟩, by simp⟩

/-- The known members are the fields in some order. -/
theorem Fields.filter_perm (h : Fields i m t fields) (hothers : ∀ o ∈ others, o.1 ∉ fieldNames)
    (hperm : members.Perm (fields ++ others)) :
    (members.filter fun m => fieldNames.contains m.1).Perm fields := by
  have hfields : fields.filter (fun m => fieldNames.contains m.1) = fields :=
    List.filter_eq_self.mpr fun f hf => by simpa using h.names.1 f hf
  have hnone : others.filter (fun m => fieldNames.contains m.1) = [] :=
    List.filter_eq_nil_iff.mpr fun o ho => by simpa using hothers o ho
  have := hperm.filter fun m => fieldNames.contains m.1
  rwa [List.filter_append, hfields, hnone, List.append_nil] at this

theorem asInt32?_decimal {v : Json} (hi : -2147483648 ≤ i ∧ i < 2147483648)
    (h : ReadsAs (toString i).toList v) : asInt32? v = some i := by
  obtain ⟨n, hn, hvalue⟩ := readsAs_decimal i
  obtain rfl := h.unique hn
  simp only [asInt32?, hvalue, if_pos hi]

theorem asText?_spelled {v : Json} {body : List Char} (hm : Spelled m.toList body)
    (h : ReadsAs (inQuotes body) v) : v = .string (some m) := by
  rw [h.unique hm.namedAs.readsAs, String.ofList_toList]

/-- What a record says that holds the fields in some order. -/
theorem Fields.record (h : Fields i m t fields) (hi : -2147483648 ≤ i ∧ i < 2147483648)
    (hperm : members.Perm fields) (hvalue : ∀ f ∈ members, ReadsAs f.2 (value f)) :
    let r : Record := members.map fun f => (f.1, value f)
    r.required "Identifier" asInt32? = some i ∧ r.optional "Message" asText? "" = some m ∧
      r.optional "Type" (asOptional? asText?) none = some t := by
  intro r
  have hnodup : (members.map Prod.fst).Nodup := (hperm.map _).nodup_iff.mpr h.names.2
  have found (f : String × List Char) (hf : f ∈ fields) : f ∈ members := hperm.mem_iff.mpr hf
  have hidentifier : ("Identifier", (toString i).toList) ∈ members :=
    found _ (by cases h <;> exact List.mem_cons_self)
  refine ⟨(required_of_mem hidentifier hnodup _).trans
    (asInt32?_decimal hi (hvalue _ hidentifier)), ?_⟩
  cases h with
  | @untyped body hm =>
    have hmessage := found ("Message", inQuotes body) (by simp)
    have hno : "Type" ∉ members.map Prod.fst := by
      rw [(hperm.map _).mem_iff]
      simp
    refine ⟨(optional_of_mem hmessage hnodup _ _).trans ?_, optional_of_not_mem hno _ _⟩
    rw [asText?_spelled hm (hvalue _ hmessage)]
    rfl
  | @typed t body body' hm ht =>
    have hmessage := found ("Message", inQuotes body) (by simp)
    have htype := found ("Type", inQuotes body') (by simp)
    refine ⟨(optional_of_mem hmessage hnodup _ _).trans ?_,
      (optional_of_mem htype hnodup _ _).trans ?_⟩
    · rw [asText?_spelled hm (hvalue _ hmessage)]
      rfl
    · rw [asText?_spelled ht (hvalue _ htype)]
      rfl

/-- **However a frame is written, it is read as what it carries.** -/
theorem IsFrame.read? (h : IsFrame i m t text) (hi : -2147483648 ≤ i ∧ i < 2147483648) :
    Frame.read? text = some ⟨i, m, t⟩ := by
  cases h with
  | @mk fields others members cs hfields hothers hperm hmembers htext =>
    -- the whole object is read, what nobody asks for included
    have hread : ∀ f ∈ members, ∃ v, ReadsAs f.2 v := by
      intro f hf
      rcases List.mem_append.mp (hperm.mem_iff.mp hf) with hf | hf
      · exact hfields.isRead f hf
      · exact (hothers f hf).2.isRead
    obtain ⟨value, hvalue⟩ := exists_values hread
    have hobject := (hmembers.membersAs hvalue).readsAs.read? htext
    -- and its record is the fields again
    have hknown := hfields.filter_perm (fun o ho => (hothers o ho).1) hperm
    have hnodup := (hknown.map Prod.fst).nodup_iff.mpr hfields.names.2
    obtain ⟨hidentifier, hmessage, htype⟩ := hfields.record hi hknown
      fun f hf => hvalue f (List.mem_of_mem_filter hf)
    have hrecord : record? fieldNames (.object (members.map fun f => (some f.1, value f)))
        = some _ := fieldsOf?_eq hnodup
    unfold Frame.read?
    rw [hobject]
    simp only [Option.bind_eq_bind, Option.bind_some]
    rw [← fieldNames, hrecord]
    simp only [Option.bind_some, hidentifier, hmessage, htype]
    rfl

end

/-! ## 3. The frame of a command -/

/-- The frame of a command, member by member. -/
theorem encodeCommand_toList (i : Int) (m : String) : (encodeCommand i m).toList = '{' ::
    ((inQuotes "Identifier".toList ++ ':' :: (toString i).toList) ++ ',' ::
      ((inQuotes "Message".toList ++ ':' :: inQuotes (m.toList.flatMap escapeChar)) ++ ',' ::
        (inQuotes "Name".toList ++ ':' :: quote senderTag.toList)) ++ ['}']) := by
  have hidentifier : "\x7b\"Identifier\":".toList
      = '{' :: (inQuotes "Identifier".toList ++ [':']) := by decide +kernel
  have hmessage : ",\"Message\":".toList = ',' :: (inQuotes "Message".toList ++ [':']) := by
    decide +kernel
  have hname : ",\"Name\":".toList = ',' :: (inQuotes "Name".toList ++ [':']) := by decide +kernel
  have htext : (encodeCommand i m).toList = _ := String.toList_ofList
  rw [htext, hidentifier, hmessage, hname, quote_eq m.toList]
  simp only [List.append_assoc, List.cons_append, List.nil_append]

/-- A name that needs no escapes. -/
theorem spelled_name (name : String) (h : name.toList.flatMap escapeChar = name.toList) :
    Spelled name.toList name.toList := by
  have := spelled_escaped name.toList
  rwa [h] at this

theorem encodeCommand_isFrame (i : Int) (m : String) : IsFrame i m none (encodeCommand i m) := by
  have hmembers := Members.cons (spelled_name "Identifier" (by decide +kernel))
    (.plain _ (toString i).toList)
    (.cons (spelled_name "Message" (by decide +kernel))
      (.plain _ (inQuotes (m.toList.flatMap escapeChar)))
      (.one (spelled_name "Name" (by decide +kernel)) (.plain _ (quote senderTag.toList))))
  refine .mk (.untyped (spelled_escaped m.toList)) ?_ (.refl _) hmembers ?_
  · rw [List.forall_mem_singleton]
    exact ⟨by decide +kernel, .string (spelled_escaped senderTag.toList).body⟩
  · exact .of_eq (encodeCommand_toList i m)

theorem encodeCommand_printable (i : Int) (m : String) {c : Char}
    (h : c ∈ (encodeCommand i m).toList) : 0x20 ≤ c.toNat := by
  have literal (s : String) (hs : (s.toList.all fun c => 0x20 ≤ c.toNat) = true)
      (h : c ∈ s.toList) : 0x20 ≤ c.toNat := of_decide_eq_true (List.all_eq_true.mp hs c h)
  have htext : (encodeCommand i m).toList = _ := String.toList_ofList
  rw [htext] at h
  simp only [List.mem_append, List.mem_singleton] at h
  rcases h with (((((h | h) | h) | h) | h) | h) | rfl
  · exact literal _ (by decide +kernel) h
  · exact decimal_printable h
  · exact literal _ (by decide +kernel) h
  · exact quote_printable h
  · exact literal _ (by decide +kernel) h
  · exact quote_printable h
  · decide

/-- **Frames carry any identifier, any text and any type**, and the frame of a command is read back
as the command. -/
theorem frames_faithful (i : Int32) (m : String) (t : Option String) :
    (∀ text, IsFrame i.toInt m t text → Frame.read? text = some ⟨i.toInt, m, t⟩) ∧
    IsFrame i.toInt m none (encodeCommand i.toInt m) ∧
    (∀ c ∈ (encodeCommand i.toInt m).toList, 0x20 ≤ c.toNat) ∧
    Frame.read? (encodeCommand i.toInt m) = some ⟨i.toInt, m, none⟩ := by
  have hi : -2147483648 ≤ i.toInt ∧ i.toInt < 2147483648 := ⟨i.le_toInt, i.toInt_lt⟩
  have hcommand := encodeCommand_isFrame i.toInt m
  exact ⟨fun _ h => h.read? hi, hcommand, fun _ => encodeCommand_printable _ _, hcommand.read? hi⟩

/-- A value of no concern to the reader: an array with an empty object and a number in it. -/
def aside : List Char := ['[', '{', '}', ',', ' ', '-', '1', '.', '5', 'e', '3', ']']

theorem aside_value : Derives .value aside := by
  have digits (cs : List Char) (hne : cs ≠ []) (h : cs.all Char.isDigit = true) : Digits cs :=
    ⟨hne, List.all_eq_true.mp h⟩
  have hwhole : Whole ['1'] := ⟨digits _ (by decide) (by decide), .inr (by decide)⟩
  have hnumber : Number ['-', '1', '.', '5', 'e', '3'] :=
    @Number.mk ['-'] ['1'] ['.', '5'] ['e', '3'] (by decide) hwhole
      (.present (digits _ (by decide) (by decide)))
      (@Exponent.present 'e' [] ['3'] (by decide) (by decide) (digits _ (by decide) (by decide)))
  have hnone : Blanks [] := by simp [Blanks]
  exact @Derives.array ['{', '}', ',', ' ', '-', '1', '.', '5', 'e', '3']
    (@Derives.items _ ['{', '}'] _ (@Derives.noMembers [] hnone) (.refl _)
      (.item (.number hnumber) (@Padded.mk _ [' '] [] (by simp [Blanks, isBlank]) hnone)))

/-- Members out of order, a text spelled by a code, and a member of no concern among them. -/
def reordered : String :=
  "\x7b\"Type\":\"Chat\",\"X\": [\x7b\x7d, -1.5e3] ,\"Message\":\"\\u0041\",\"Identifier\":-7\x7d"

theorem reordered_isFrame : IsFrame (-7) "A" (some "Chat") reordered := by
  have hA : Spelled "A".toList ['\\', 'u', '0', '0', '4', '1'] :=
    @Spelled.cons 'A' ['\\', 'u', '0', '0', '4', '1'] [] []
      (.code (@Code.mk 0 0 4 1 '0' '0' '4' '1' (.inl rfl) (.inl rfl) (.inl rfl) (.inl rfl))) .nil
  have hblank : Blanks [' '] := by simp [Blanks, isBlank]
  have hmembers := Members.cons (spelled_name "Type" (by decide +kernel))
    (.plain _ (inQuotes "Chat".toList))
    (.cons (spelled_name "X" (by decide +kernel))
      (.mk (.refl _) (@Padded.mk aside _ _ hblank hblank))
      (.cons (spelled_name "Message" (by decide +kernel))
        (.plain _ (inQuotes ['\\', 'u', '0', '0', '4', '1']))
        (.one (spelled_name "Identifier" (by decide +kernel))
          (.plain _ (toString (-7 : Int)).toList))))
  refine @IsFrame.mk (-7) "A" (some "Chat") reordered _ [("X", aside)] _ _
    (.typed hA (spelled_name "Chat" (by decide +kernel))) ?_ (List.isPerm_iff.mp ?_) hmembers
    (.of_eq ?_)
  · rw [List.forall_mem_singleton]
    exact ⟨by decide +kernel, aside_value⟩
  · decide +kernel
  · decide +kernel

theorem frames_faithful_reordered : Frame.read? reordered = some ⟨-7, "A", some "Chat"⟩ :=
  (frames_faithful (-7) "A" (some "Chat")).1 reordered reordered_isFrame

end ServerWarden.Rcon
