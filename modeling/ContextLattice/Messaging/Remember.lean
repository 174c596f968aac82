import ContextLattice.Foundation.Locality
import ContextLattice.Foundation.Words
import ContextLattice.Messaging.Parse

/-!
# What remember stores

`remember` acts on the directives `project`, `topic` and `file`, but the text it stores has lost the
directives of all commands, and blanks, commas, colons and dashes at both ends.
-/

namespace ContextLattice

open Foundation Foundation.Piece List

variable (env : MessagingEnv)

def actsOn (m : List Char) : Bool := directiveKey env m ∈ ["project", "topic", "file"]

def keptUnlessActed : Piece → List Char
  | kept c => [c]
  | secret m => if actsOn env m then [] else m

def withoutActed (text : String) : List Char :=
  (directivePieces env text).flatMap (keptUnlessActed env)

def userText (parsed : ParsedCommand) : String := (splitWord parsed.raw).2

def cutOff (cs : List Char) : List Char :=
  cs.takeWhile isTrim ++ (cs.dropWhile isTrim).rtakeWhile isTrim

variable {env}

variable (env) in
theorem withoutDirectives_eq (text : String) :
    withoutDirectives env text = render [] (directivePieces env text) := by
  have hmarks : Marks env.words.isWord [] directivePattern none (text.toList.map kept) _ :=
    marks_mark (fits_map_kept _) none
  have hrender := hmarks.render_eq (by simp)
  rw [render_map_kept] at hrender
  exact hrender.symm

theorem mem_directiveMatches {text : String} {m : List Char} :
    m ∈ directiveMatches env text ↔ secret m ∈ directivePieces env text := by
  rw [directiveMatches, mem_filterMap]
  constructor
  · rintro ⟨p, hp, hm⟩
    cases p with
    | kept c => cases hm
    | secret s => exact Option.some.inj hm ▸ hp
  · exact fun h => ⟨_, h, rfl⟩

theorem letters_directive_ne_nil {text : String} {m : List Char}
    (h : m ∈ directiveMatches env text) : letters isSpace m ≠ [] := by
  have hmarks : Marks env.words.isWord [] directivePattern none (text.toList.map kept) _ :=
    marks_mark (fits_map_kept _) none
  rcases hmarks.accepts_of_mem (mem_directiveMatches.mp h) with hkept | haccepts
  · obtain ⟨c, -, hc⟩ := mem_map.mp hkept
    cases hc
  · obtain ⟨k, v, rfl, ⟨n, s, rfl, -, a, b, rfl, -, e, b', rfl, ⟨c, rfl, hc⟩, -⟩, -⟩ := haccepts
    obtain rfl := beq_iff_eq.mp hc
    intro hnil
    have hblank := letters_eq_nil.mp hnil '=' (by simp)
    revert hblank
    decide

variable (env) in
theorem length_letters_le (ps : List Piece) :
    (letters isSpace (render [] ps)).length ≤
        (letters isSpace (ps.flatMap (keptUnlessActed env))).length ∧
      ((letters isSpace (ps.flatMap (keptUnlessActed env))).length ≤
          (letters isSpace (render [] ps)).length →
        ∀ m, secret m ∈ ps → letters isSpace m ≠ [] → actsOn env m = true) := by
  induction ps with
  | nil => exact ⟨le_rfl, fun _ _ h => by cases h⟩
  | cons p ps ih =>
    obtain ⟨hle, heq⟩ := ih
    rw [flatMap_cons, letters_append, length_append]
    cases p with
    | kept c =>
      have hsplit : letters isSpace (render [] (kept c :: ps)) =
          letters isSpace [c] ++ letters isSpace (render [] ps) := by
        rw [render_kept, ← letters_append]
        rfl
      rw [hsplit, length_append, keptUnlessActed]
      refine ⟨by omega, fun h m hm => ?_⟩
      rcases mem_cons.mp hm with hm | hm
      · cases hm
      · exact heq (by omega) m hm
    | secret s =>
      rw [render_secret, nil_append]
      refine ⟨by omega, fun h m hm hne => ?_⟩
      rcases mem_cons.mp hm with hm | hm
      · obtain rfl := secret.inj hm
        by_contra hno
        have hpos := length_pos_iff.mpr hne
        rw [keptUnlessActed, if_neg hno] at h
        omega
      · exact heq (by omega) m hm hne

theorem flatMap_keptUnlessActed {ps : List Piece} (h : ∀ m, secret m ∈ ps → actsOn env m = true) :
    ps.flatMap (keptUnlessActed env) = render [] ps := by
  refine flatMap_congr fun p hp => ?_
  cases p with
  | kept c => rfl
  | secret m => rw [keptUnlessActed, if_pos (h m hp), shown]

/-! ### Both ends -/

theorem stripList_parts (p : Char → Bool) (cs : List Char) :
    cs = cs.takeWhile p ++ (stripList p cs ++ (cs.dropWhile p).rtakeWhile p) := by
  rw [stripList, List.rdropWhile, List.rtakeWhile, ← reverse_append,
    takeWhile_append_dropWhile, reverse_reverse, takeWhile_append_dropWhile]

theorem wordsOf_stripList {p : Char → Bool} {cs : List Char}
    (h : ∀ c ∈ cs.takeWhile p ++ (cs.dropWhile p).rtakeWhile p, isSpace c = true) :
    wordsOf isSpace (stripList p cs) = wordsOf isSpace cs := by
  rw [forall_mem_append] at h
  conv_rhs => rw [stripList_parts p cs]
  rw [wordsOf_blanks_append h.1, wordsOf_append_blanks h.2]

theorem wordsOf_strip (s : String) :
    wordsOf isSpace (strip s).toList = wordsOf isSpace s.toList := by
  rw [strip, String.toList_ofList]
  refine wordsOf_stripList fun c hc => ?_
  rcases mem_append.mp hc with hc | hc
  · exact mem_takeWhile_imp hc
  · exact mem_rtakeWhile_imp hc

theorem length_letters_stripList (cs : List Char) :
    (letters isSpace (stripList isTrim cs)).length + (letters isSpace (cutOff cs)).length =
      (letters isSpace cs).length := by
  conv_rhs => rw [stripList_parts isTrim cs]
  rw [cutOff]
  simp only [letters_append, length_append]
  omega

/-! ### The command -/

variable {bot text : String} {requirePrefix : Bool} {parsed : ParsedCommand}

theorem content_of_remember (h : parseMessagingCommand env bot requirePrefix text = some parsed)
    (haction : parsed.action = .remember) : parsed.content =
      String.ofList (stripList isTrim (withoutDirectives env (userText parsed))) := by
  obtain ⟨body, -, rfl⟩ := Option.map_eq_some_iff.mp h
  revert haction
  rw [userText, parseMessagingBody]
  split
  · intro haction
    cases haction
  · dsimp only
    split
    · intro haction
      cases haction
    · intro _
      rfl

theorem remember_writes {call : CommandCall} {ask : Question → Except HttpError Json}
    {response : MessagingResponse} (haction : parsed.action = .remember)
    (h : executeMessagingCommand env call parsed ask = .ok response) :
    ∃ project file topicPath answer,
      ask (.writeMemory project file (strip parsed.content) topicPath) = .ok answer := by
  obtain ⟨scope, -, h⟩ := bind_eq_ok h
  obtain ⟨reply, hreply, -⟩ := bind_eq_ok h
  rw [commandReply, haction] at hreply
  obtain ⟨-, -, hreply⟩ := bind_eq_ok hreply
  obtain ⟨-, -, hreply⟩ := bind_eq_ok hreply
  obtain ⟨file, -, hreply⟩ := bind_eq_ok hreply
  obtain ⟨written, hwritten, -⟩ := bind_eq_ok hreply
  exact ⟨_, _, _, written, hwritten⟩

/-- **What remember stores.** -/
theorem remember_keeps_iff (h : parseMessagingCommand env bot requirePrefix text = some parsed)
    (haction : parsed.action = .remember) :
    (∀ call ask response, executeMessagingCommand env call parsed ask = .ok response →
      ∃ project file topicPath answer,
        ask (.writeMemory project file (strip parsed.content) topicPath) = .ok answer) ∧
    (wordsOf isSpace (strip parsed.content).toList =
        wordsOf isSpace (withoutActed env (userText parsed)) ↔
      (∀ m ∈ directiveMatches env (userText parsed), actsOn env m = true) ∧
        ∀ c ∈ cutOff (withoutDirectives env (userText parsed)), isSpace c = true) := by
  refine ⟨fun _ _ _ => remember_writes haction, ?_⟩
  have hcontent := content_of_remember h haction
  have hpieces := withoutDirectives_eq env (userText parsed)
  obtain ⟨hle, heq⟩ := length_letters_le env (directivePieces env (userText parsed))
  rw [wordsOf_strip, hcontent, String.toList_ofList]
  constructor
  · intro hwords
    -- the words determine the letters, and letters can only get lost
    have hletters := congrArg (fun ws => ws.flatten.length) hwords
    simp only [flatten_wordsOf] at hletters
    have hcut := length_letters_stripList (withoutDirectives env (userText parsed))
    rw [← hpieces] at hle heq
    rw [← withoutActed] at hle heq
    refine ⟨fun m hm => ?_, letters_eq_nil.mp (length_eq_zero_iff.mp (by omega))⟩
    exact heq (by omega) m (mem_directiveMatches.mp hm) (letters_directive_ne_nil hm)
  · rintro ⟨hacts, hblank⟩
    rw [wordsOf_stripList hblank, withoutActed, flatMap_keptUnlessActed, hpieces]
    exact fun m hm => hacts m (mem_directiveMatches.mpr hm)

def milkCommand : ParsedCommand :=
  ⟨.remember, "buy milk", [("project", "home")], "remember buy milk project=home"⟩

theorem remember_keeps_iff_milk :
    parseMessagingCommand MessagingEnv.plain "ContextLattice" true
        "@contextlattice: remember buy milk project=home" = some milkCommand ∧
      wordsOf isSpace (strip milkCommand.content).toList =
        wordsOf isSpace (withoutActed MessagingEnv.plain (userText milkCommand)) := by
  have hparse : parseMessagingCommand MessagingEnv.plain "ContextLattice" true
      "@contextlattice: remember buy milk project=home" = some milkCommand := by
    decide +kernel
  exact ⟨hparse, (remember_keeps_iff hparse rfl).2.mpr
    ⟨by decide +kernel, all_eq_true.mp (by decide +kernel)⟩⟩

/-- A status in the text is taken for a directive: `remember` stores `deploy failed`. -/
theorem status_not_stored :
    let parsed : ParsedCommand := ⟨.remember, "deploy failed", [("status", "500")],
      "remember deploy failed status=500"⟩
    parseMessagingCommand MessagingEnv.plain "ContextLattice" true
        "/cl remember deploy failed status=500" = some parsed ∧
      withoutActed MessagingEnv.plain (userText parsed) = "deploy failed status=500".toList ∧
      wordsOf isSpace (strip parsed.content).toList ≠
        wordsOf isSpace (withoutActed MessagingEnv.plain (userText parsed)) := by
  decide +kernel

end ContextLattice
