import Melody.Token.Kind

/-!
# Words that the linter knows
-/

set_option autoImplicit false

namespace Melody.Lint

def misspellings : List (String × String) :=
  [("tempu", "tempo"), ("tempoo", "tempo"), ("tiempo", "tempo"), ("repitir", "repetir"),
   ("veses", "vezes"), ("ves", "vezes"), ("instrumentu", "instrumento"),
   ("imstrumento", "instrumento"), ("envelope_config", "configurar_envelope"),
   ("tocaar", "tocar"), ("tokar", "tocar"), ("paausa", "pausa"), ("senão", "senao"),
   ("elso", "senao"), ("esle", "senao"), ("retornar", "retornar"), ("atacar", "attack"),
   ("decaimento", "decay"), ("sus", "sustain"), ("liberar", "release"), ("función", "funcao"),
   ("funcion", "funcao"), ("function", "funcao"), ("toke", "tocar"), ("toca", "tocar")]

def durations : List String :=
  ["breve", "semibreve", "minima", "seminima", "colcheia", "semicolcheia", "fusa", "semifusa"]

def waveforms : List String :=
  ["sine", "square", "triangle", "sawtooth"]

def systemFunctions : List String :=
  ["tocar", "pausa", "transpor", "reverse", "reverso", "repetir"]

def parameterNames : List String :=
  ["duracao", "acorde", "nota", "tom", "tempo", "velocidade", "parametro", "valor", "freq",
   "frequencia", "oitava", "tonalidade", "volume", "intensidade"]

def isParameter (name : List Char) : Bool :=
  parameterNames.contains (Text.lower (String.ofList name)) ||
    (!durations.contains (String.ofList name) && Token.isIdentifier name && 1 < name.length)

end Melody.Lint
