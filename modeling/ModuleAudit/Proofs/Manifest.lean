import ModuleAudit.Manifest

/-
Manifests that are nested too deep.

The one fault of a manifest that is not passed over is a value in more containers than are
followed.  A text of nothing but opening brackets shows that there are such manifests.
-/

namespace ModuleAudit

namespace Json.Parser

theorem takeWhile_isSpace_brackets (n : Nat) :
    (List.replicate n '[').takeWhile Cursor.isSpace = [] := by
  cases n with
  | zero => rfl
  | succ n => exact List.takeWhile_cons_of_neg (by decide)

theorem rest_skipSpace_brackets {c : Cursor} {n : Nat} (h : c.rest = List.replicate n '[') :
    c.skipSpace.rest = List.replicate n '[' := by
  rw [Cursor.skipSpace, Cursor.drop, h, takeWhile_isSpace_brackets]
  rfl

theorem value_bracket {room depth : Nat} {c : Cursor} {rest : List Char} (h : c.rest = '[' :: rest) :
    value (room + 1) depth c =
      if depthLimit ≤ depth then .error (.tooDeep ⟨.array⟩)
      else if (c.drop 1).skipSpace.rest.head? == some ']' then
        .ok (.array [], (c.drop 1).skipSpace.drop 1)
      else items room (depth + 1) [] (c.drop 1).skipSpace := by
  rw [value]
  split
  · simp_all
  · simp_all
  · rfl
  · simp_all

theorem value_brackets {n room depth : Nat} {c : Cursor} (h : c.rest = List.replicate n '[')
    (hdeep : depthLimit < depth + n) (hdepth : depth ≤ depthLimit) (hroom : 2 * n ≤ room) :
    value room depth c = .error (.tooDeep ⟨.array⟩) := by
  induction n generalizing room depth c with
  | zero => omega
  | succ n ih =>
    obtain ⟨room, rfl⟩ : ∃ k, room = k + 2 := ⟨room - 2, by omega⟩
    rw [List.replicate_succ] at h
    rw [value_bracket h]
    by_cases hlimit : depthLimit ≤ depth
    · rw [if_pos hlimit]
    · have hinner : (c.drop 1).skipSpace.rest = List.replicate n '[' := by
        refine rest_skipSpace_brackets ?_
        rw [Cursor.drop, h, List.drop_one, List.tail_cons]
      obtain ⟨k, rfl⟩ : ∃ k, n = k + 1 := ⟨n - 1, by omega⟩
      have hhead : ¬ ((c.drop 1).skipSpace.rest.head? == some ']') = true := by
        rw [hinner, List.replicate_succ, List.head?_cons]
        decide
      rw [if_neg hlimit, if_neg hhead, items, ih hinner (by omega) (by omega) (by omega)]
      rfl

end Json.Parser

theorem Json.parse_brackets {n : Nat} (h : depthLimit < n) :
    parse (List.replicate n '[') = .error (.tooDeep ⟨.array⟩) := by
  have hmark : ¬ ((List.replicate n '[').head? == some '\uFEFF') = true := by
    obtain ⟨k, rfl⟩ : ∃ k, n = k + 1 := ⟨n - 1, by omega⟩
    rw [List.replicate_succ, List.head?_cons]
    decide
  have hvalue : Parser.value (2 * (List.replicate n '[').length + 2) 0
      (Parser.Cursor.skipSpace ⟨0, List.replicate n '['⟩) = .error (.tooDeep ⟨.array⟩) := by
    refine Parser.value_brackets (Parser.rest_skipSpace_brackets rfl) ?_ (Nat.zero_le _) ?_
    · omega
    · rw [List.length_replicate]
      omega
  rw [parse, if_neg hmark]
  dsimp only
  rw [hvalue]
  rfl

theorem Text.Utf8.decode_brackets (n : Nat) :
    decode (List.replicate n 0x5B) = .ok (List.replicate n '[') := by
  have hfrom : ∀ offset, decodeFrom offset .none (List.replicate n 0x5B) =
      .ok (List.replicate n '[') := by
    induction n with
    | zero => exact fun _ => rfl
    | succ n ih =>
      intro offset
      exact congrArg (Except.map ('[' :: ·)) (ih (offset + 1))
  exact hfrom 0

theorem Text.unifyLines_brackets (n : Nat) :
    unifyLines (List.replicate n '[') = List.replicate n '[' := by
  induction n with
  | zero => rfl
  | succ n ih => rw [List.replicate_succ, unifyLines, ih] <;> simp

theorem Disk.readText_brackets {disk : Disk} {path : String} {n : Nat}
    (h : disk.lookup (Path.ofString path).toString = .ok (.file (List.replicate n 0x5B))) :
    disk.readText path = .ok (String.ofList (List.replicate n '[')) := by
  unfold readText
  dsimp only
  rw [h]
  dsimp only
  rw [Text.Utf8.decode_brackets]
  dsimp only
  rw [Text.unifyLines_brackets]

theorem Manifest.load_brackets {disk : Disk} {directory : String} {n : Nat}
    (h : disk.readText (location directory) = .ok (String.ofList (List.replicate n '[')))
    (hn : Json.depthLimit < n) : load disk directory = .error ⟨.array⟩ := by
  unfold load
  dsimp only
  rw [h]
  dsimp only
  rw [String.toList_ofList, Json.parse_brackets hn]

end ModuleAudit
