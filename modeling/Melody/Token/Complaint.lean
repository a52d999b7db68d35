import Melody.Token

/-!
# Complaints about tokens

What can be wrong with the tokens of a program, and the sentence that reports it.
-/

set_option autoImplicit false

namespace Melody.Token

inductive Complaint where
  | invalid (line : Nat) (value : String) (suggestions : List String)
  | malformed (line : Nat) (value fix : String)
  | resembles (line : Nat) (value command : String)
  | suspicious (line : Nat) (value : String)
  | joined (line : Nat) (value note : String)
  | joinedUnclear (line : Nat) (value : String)
  | incompletePlay (line : Nat)
  | noteExpected (line : Nat) (value : String)
  | durationExpected (line : Nat) (value : String)
  | semicolonExpected (line : Nat) (value : String)
  | strayBrace (line : Nat)
  | strayParenthesis (line : Nat)
  | openBrace (line : Nat)
  | openParenthesis (line : Nat)
deriving DecidableEq, Repr

def Complaint.message : Complaint → String
  | invalid line value [] =>
    s!"Linha {line}: Token inválido '{value}' - Token não reconhecido na linguagem MelodyScript"
  | invalid line value suggestions =>
    let words := String.intercalate "', '" suggestions
    s!"Linha {line}: Token inválido '{value}' - Você quis dizer: '{words}'?"
  | malformed line value fix =>
    s!"Linha {line}: Comando malformado '{value}' - Use: '{fix}'"
  | resembles line value command =>
    s!"Linha {line}: Token suspeito '{value}' parece ser comando malformado - " ++
      s!"Você quis dizer '{command}'?"
  | suspicious line value =>
    s!"Linha {line}: Identificador suspeito '{value}' em contexto de comando - " ++
      "Verifique se está correto"
  | joined line value note =>
    s!"Linha {line}: Comando concatenado '{value}' - Use: 'tocar {note} seminima'"
  | joinedUnclear line value =>
    s!"Linha {line}: Comando malformado '{value}' - Use formato: 'tocar <nota> <duracao>'"
  | incompletePlay line =>
    s!"Linha {line}: Comando 'tocar' incompleto - Esperado: 'tocar <nota> <duracao>;'"
  | noteExpected line value =>
    s!"Linha {line}: Esperado nota musical após 'tocar', encontrado '{value}'"
  | durationExpected line value =>
    s!"Linha {line}: Esperado duração após nota, encontrado '{value}'"
  | semicolonExpected line value =>
    s!"Linha {line}: Esperado ';' após comando tocar, encontrado '{value}'"
  | strayBrace line => s!"Linha {line}: '\x7d' sem '\x7b' correspondente"
  | strayParenthesis line => s!"Linha {line}: ')' sem '(' correspondente"
  | openBrace line => s!"Linha {line}: '\x7b' não fechada"
  | openParenthesis line => s!"Linha {line}: '(' não fechado"

end Melody.Token
