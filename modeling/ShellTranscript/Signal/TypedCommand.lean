import ShellTranscript.Text.Blank

-- The command typed at a prompt, recovered from the text of the terminal when the input is accepted.
namespace ShellTranscript

open Text

-- The text after the prompt, or after the prompt without its trailing blanks; without a prompt that
-- the text starts with, the last line. Blanks around it do not count, and nothing is no command.
def typedCommand (text : Text) (prompt : Option Text) : Option Text :=
  let text := trimEnd text
  let afterPrompt := prompt.bind fun p =>
    if (trimEnd p).isEmpty then none
    else dropBeginning? p text <|> dropBeginning? (trimEnd p) text
  let typed := trim (afterPrompt.getD (lastLine text))
  if typed.isEmpty then none else some typed

end ShellTranscript
